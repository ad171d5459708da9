import Mathlib
import BlockFlow.Proofs.Number.Shortest

/-! An integer and the double of the same value in an argument slot. The integer is shown with all
its digits, the double with the fewest that read back as it. -/

namespace BlockFlow

/-! ### Integers that are doubles -/

namespace Double

theorem ofRatio_eq_finite_signed {negative sign : Bool} {num den : Nat} {rank : Fin rankCount} :
    ofRatio negative num den = .finite sign rank ↔
      sign = negative ∧ ofRatio false num den = .finite false rank := by
  constructor
  · intro h
    have hsign : sign = negative := by
      simp only [ofRatio] at h
      split at h <;> cases h
      rfl
    subst hsign
    exact ⟨rfl, ofRatio_eq_finite_iff.mpr (ofRatio_eq_finite_iff.mp h)⟩
  · rintro ⟨rfl, h⟩
    exact ofRatio_negative h sign

/-- The sign of a double that was read is the sign that was given. -/
theorem ofDecimal_eq_finite_iff {negative sign : Bool} {d : Decimal} {rank : Fin rankCount} :
    ofDecimal negative d = .finite sign rank ↔ sign = negative ∧ d.ReadsAs rank := by
  unfold Decimal.ReadsAs ofDecimal
  split
  · simp [zero, eq_comm]
  split
  · simp
  split
  · simp [zero, eq_comm]
  split
  · exact ofRatio_eq_finite_signed
  · exact ofRatio_eq_finite_signed

theorem pos_of_magnitude {rank : Fin rankCount} {n : Nat} (h : magnitude rank = n) (hn : 0 < n) :
    0 < (rank : Nat) := by
  refine Nat.pos_of_ne_zero fun hr => hn.ne ?_
  rw [hr, magnitude, show units 0 = 0 from rfl, Nat.cast_zero, zero_div] at h
  exact_mod_cast h

theorem eq_zero_of_magnitude {rank : Fin rankCount} (h : magnitude rank = 0) :
    (rank : Nat) = 0 := by
  by_contra hr
  exact (magnitude_pos (Nat.pos_of_ne_zero hr)).ne' h

theorem natAbs_signed (negative : Bool) (n : Nat) : (signed negative n).natAbs = n := by
  cases negative <;> simp [signed]

theorem toInt?_eq_some {x : Double} {n : Int} (h : x.toInt? = some n) :
    ∃ negative rank, x = .finite negative rank ∧ n = signed negative n.natAbs ∧
      magnitude rank = n.natAbs := by
  cases x with
  | nan => cases h
  | infinite negative => cases h
  | finite negative rank =>
    obtain ⟨hwhole, hn⟩ := Option.ite_none_right_eq_some.mp h
    have hpos := unitsPerOne_pos
    have hunits := Nat.div_mul_cancel (Nat.dvd_of_mod_eq_zero hwhole)
    have habs : n.natAbs = units rank / unitsPerOne := by
      rw [← Option.some.inj hn, natAbs_signed]
    refine ⟨negative, rank, rfl, ?_, ?_⟩
    · rw [habs]
      exact (Option.some.inj hn).symm
    · rw [magnitude, habs]
      generalize unitsPerOne = u at *
      rw [div_eq_iff (by exact_mod_cast hpos.ne')]
      exact_mod_cast hunits.symm

/-- A number of up to `53` bits, or the least one with more, is a magnitude. -/
theorem units_rankNear_mul_pow {m : Nat} (hm : m ≤ 2 ^ 53) (k : Nat) :
    units (rankNear (m * 2 ^ k) 1) = m * 2 ^ k := by
  have hdvd : 2 ^ shift (m * 2 ^ k) 1 ∣ m * 2 ^ k := by
    rcases Nat.lt_or_ge k (shift (m * 2 ^ k) 1) with hlt | hle
    · have hlarge := shift_le (Nat.zero_lt_of_lt hlt)
      rw [Nat.one_mul] at hlarge
      generalize shift (m * 2 ^ k) 1 = s at hlt hlarge ⊢
      have hnext : 2 ^ 53 * 2 ^ k ≤ m * 2 ^ k := by
        rw [← pow_add]
        exact (Nat.pow_le_pow_right Nat.two_pos (by omega)).trans hlarge
      have hsame : m = 2 ^ 53 :=
        hm.antisymm (Nat.le_of_mul_le_mul_right hnext (Nat.two_pow_pos k))
      rw [hsame, ← pow_add] at hlarge ⊢
      have hle := (Nat.pow_le_pow_iff_right (by decide)).mp hlarge
      exact Nat.pow_dvd_pow 2 (by omega)
    · exact (Nat.pow_dvd_pow 2 hle).mul_left m
  obtain ⟨steps, hsteps⟩ := exists_eq_mul_left_of_dvd hdvd
  rw [units_rankNear Nat.one_pos]
  generalize shift (m * 2 ^ k) 1 = s at hsteps ⊢
  rw [hsteps, Nat.one_mul, roundDiv_mul_self (Nat.two_pow_pos s)]

theorem units_rankNear_nat {m : Nat} (hm : m ≤ 2 ^ 53) :
    units (rankNear (m * unitsPerOne) 1) = m * unitsPerOne := by
  unfold unitsPerOne
  generalize 1074 = k
  exact units_rankNear_mul_pow hm k

end Double

/-! ### Reading integers -/

namespace Decimal

open Double

variable {d p : Decimal} {rank : Fin rankCount}

theorem value_nat (n : Nat) : value ⟨n, 0⟩ = n := by simp [value]

theorem ReadsAs.rankNear_eq (h : p.ReadsAs rank) (hr : 0 < (rank : Nat)) (num : Nat) {den : Nat}
    (hden : 0 < den) (hvalue : (num : ℚ) / den = p.value) :
    rankNear (num * unitsPerOne) den = rank := by
  obtain ⟨num', den', hden', hvalue', hratio⟩ := p.exists_ratio
  obtain ⟨hp, hlow, hhigh⟩ := h.range hr
  rw [ReadsAs, hratio hp hlow hhigh, ofRatio_eq_finite_iff] at h
  rw [← h]
  exact (rankNear_of_ratio_le hden hden' (hvalue.trans hvalue'.symm).le).antisymm
    (rankNear_of_ratio_le hden' hden (hvalue'.trans hvalue.symm).le)

/-- Small integers are read as themselves. -/
theorem ReadsAs.magnitude_eq (h : p.ReadsAs rank) (hr : 0 < (rank : Nat)) {m : Nat}
    (hm : m ≤ 2 ^ 53) (hvalue : p.value = m) : magnitude rank = m := by
  have hnear := h.rankNear_eq hr m Nat.one_pos (by simp [hvalue])
  have hpos := unitsPerOne_pos
  rw [← hnear, magnitude, units_rankNear_nat hm]
  generalize unitsPerOne = u at hpos ⊢
  rw [Nat.cast_mul, mul_div_cancel_right₀ _ (by exact_mod_cast hpos.ne')]

/-- No other integer is read as an integer below `2 ^ 53`. -/
theorem ReadsAs.value_eq (h : p.ReadsAs rank) (hr : 0 < (rank : Nat)) {n m : Nat}
    (hn : n < 2 ^ 53) (hmagnitude : magnitude rank = n) (hvalue : p.value = m) : m = n := by
  rcases Nat.lt_or_ge (2 ^ 53) m with hlarge | hsmall
  · have hbetween : magnitude rank ≤ value ⟨2 ^ 53, 0⟩ ∧ value ⟨2 ^ 53, 0⟩ ≤ p.value := by
      rw [hmagnitude, hvalue, value_nat]
      exact ⟨by exact_mod_cast hn.le, by exact_mod_cast hlarge.le⟩
    have hread := h.of_between hr (.inr hbetween)
    have hequal := hread.magnitude_eq hr le_rfl (value_nat _)
    rw [hmagnitude] at hequal
    exact absurd (by exact_mod_cast hequal) hn.ne
  · have hequal := h.magnitude_eq hr hsmall hvalue
    rw [hmagnitude] at hequal
    exact_mod_cast hequal.symm

/-- Nothing with fewer digits is read as an integer below `2 ^ 53`. -/
theorem ReadsAs.precision_le (h : d.ReadsAs rank) (hr : 0 < (rank : Nat)) {n : Nat}
    (hn : n < 2 ^ 53) (hmagnitude : magnitude rank = n) : precision ⟨n, 0⟩ ≤ d.precision := by
  by_contra hlt
  have hsame : value ⟨n, 0⟩ = magnitude rank := by rw [value_nat, hmagnitude]
  have htop : (digitCount n : Int) + 0 = topOf rank := top_eq_topOf hr hsame
  have hdigits : precision ⟨n, 0⟩ ≤ digitCount n := precision_le_digitCount ⟨n, 0⟩
  obtain ⟨p, hp⟩ := Option.isSome_iff_exists.mp (h.onGrid_isSome hr)
  have hread : p.ReadsAs rank := onGrid_reads_back hp
  -- the multiples of this power of ten are integers
  obtain ⟨k, hk⟩ : ∃ k : Nat, topOf rank - d.precision = k :=
    ⟨digitCount n - d.precision, by omega⟩
  have hvalue : p.value = (p.coefficient * 10 ^ k : Nat) := by
    have hexponent : p.exponent = k := by
      rw [← hk]
      rcases onGrid_cases hp with rfl | rfl <;> rfl
    rw [value, hexponent, zpow_natCast]
    push_cast
    rfl
  have hequal := hread.value_eq hr hn hmagnitude hvalue
  have hprecision : p.precision = precision ⟨n, 0⟩ := by
    refine precision_eq (hread.range hr).1 ?_
    rw [hvalue, hequal, value_nat]
  have hfew := precision_onGrid hr (precision_pos (h.range hr).1) hp
  omega

/-! ### Texts -/

theorem numeral_eq_iff (hd : 0 < d.coefficient) (hp : 0 < p.coefficient) (negative : Bool) :
    d.numeral hd negative = p.numeral hp negative ↔ d.value = p.value := by
  rw [← magnitude_numeral hd negative, ← magnitude_numeral hp negative]
  constructor
  · intro h
    rw [h]
  · intro h
    exact Numeral.ext rfl (Numeral.digits_eq h) (Numeral.point_eq h)

/-- Significant digits with the zeros behind them are all digits of an integer. -/
theorem significant_append_zeros {n : Nat} (h : 0 < n) :
    (significant ⟨n, 0⟩).1 ++ DigitLayout.zeros (digitCount n - precision ⟨n, 0⟩) =
      Nat.toDigits 10 n := by
  have hlength : precision ⟨n, 0⟩ ≤ digitCount n := precision_le_digitCount ⟨n, 0⟩
  have hcount : (significant ⟨n, 0⟩).1.length = precision ⟨n, 0⟩ := rfl
  obtain ⟨-, zeros, hvalue, hplace⟩ := significant_spec (d := ⟨n, 0⟩) h
  have hzeros : zeros = digitCount n - precision ⟨n, 0⟩ := by
    change (digitCount n : Int) + 0 - precision ⟨n, 0⟩ = 0 + zeros at hplace
    omega
  refine digits_eq_of_value ((digits_significant _).append (digits_replicate _))
    (digits_toDigits n) ?_ ?_
  · rw [List.length_append, hcount, DigitLayout.zeros, List.length_replicate]
    change _ = digitCount n
    omega
  · rw [digitsValue_append, digitsValue_zeros, digitsValue_toDigits, DigitLayout.zeros,
      List.length_replicate, ← hzeros]
    exact hvalue.symm

theorem layout_integer {n : Nat} (h : 0 < n) (hn : n < 10 ^ 21) :
    DoubleFormat.slot.layout.text (significant ⟨n, 0⟩).1 (significant ⟨n, 0⟩).2 = n.repr := by
  have hpos := digitCount_pos n
  have hpoint : (significant ⟨n, 0⟩).2 = (digitCount n : Int) := Int.add_zero _
  have hlength : (significant ⟨n, 0⟩).1.length ≤ digitCount n := precision_le_digitCount ⟨n, 0⟩
  have hfew := digitCount_le (by decide) hn
  rw [hpoint, DigitLayout.text, if_pos]
  · rw [DigitLayout.positional_pos _ _ (by omega), Int.toNat_natCast, if_pos hlength]
    change String.ofList ((significant ⟨n, 0⟩).1 ++
      DigitLayout.zeros (digitCount n - precision ⟨n, 0⟩)) ++ "" = _
    rw [significant_append_zeros h, String.append_empty]
    rfl
  · change (-5 : Int) ≤ digitCount n ∧ (digitCount n : Int) ≤ 21
    omega

theorem text_numeral_nat {n : Nat} (h : 0 < n) (hn : n < 10 ^ 21) (negative : Bool) :
    (numeral ⟨n, 0⟩ h negative).text = Double.withSign negative n.repr :=
  congrArg (Double.withSign negative) (layout_integer h hn)

end Decimal

theorem slotInteger_eq_text {n : Int} (h : 0 < n.natAbs) (hn : n.natAbs < 10 ^ 21) :
    slotInteger n = (Decimal.numeral ⟨n.natAbs, 0⟩ h (decide (n < 0))).text := by
  have hslot : n.natAbs < Nat.pow 10 21 := hn
  rw [slotInteger, if_pos hslot, Int.toString_eq_repr, Int.repr_eq_if]
  rw [Decimal.text_numeral_nat h hn, Double.withSign]
  by_cases hsign : n < 0
  · have habs : (-n).toNat = n.natAbs := by omega
    rw [if_neg (by omega), if_pos (by simpa using hsign), habs]
  · have habs : n.toNat = n.natAbs := by omega
    rw [if_pos (by omega), if_neg (by simpa using hsign), habs]

theorem slotInteger_zero : slotInteger 0 = "0" := rfl

namespace Double

theorem text_slot_of_eq_zero (negative : Bool) {rank : Fin rankCount} (h : (rank : Nat) = 0) :
    (finite negative rank).text .slot = "0" := by
  rw [text, if_pos h]
  cases negative <;> rfl

theorem text_slot_of_pos (negative : Bool) {rank : Fin rankCount} (h : 0 < (rank : Nat)) :
    (finite negative rank).text .slot =
      ((shortest rank).numeral (coefficient_shortest_pos h) negative).text := if_neg h.ne'

end Double

/-- The texts of an integer and of its double are the same exactly if no decimal with fewer digits
is read as the double. -/
theorem slotInteger_eq_iff {x : Double} {n : Int} (hx : x.toInt? = some n)
    (hn : n.natAbs < 10 ^ 21) : slotInteger n = x.text .slot ↔
      ∀ (negative : Bool) (d : Decimal), Double.ofDecimal negative d = x →
        Decimal.precision ⟨n.natAbs, 0⟩ ≤ d.precision := by
  obtain ⟨negative, rank, rfl, hsigned, hmagnitude⟩ := Double.toInt?_eq_some hx
  rcases Nat.eq_zero_or_pos n.natAbs with hzero | hpos
  · have hr := Double.eq_zero_of_magnitude (by rw [hmagnitude, hzero, Nat.cast_zero])
    rw [Int.natAbs_eq_zero.mp hzero, slotInteger_zero, Double.text_slot_of_eq_zero negative hr]
    exact iff_of_true rfl fun _ d _ => Nat.zero_le d.precision
  · have hr := Double.pos_of_magnitude hmagnitude hpos
    have hsign : decide (n < 0) = negative := by
      rw [hsigned]
      cases negative
      · simp [Double.signed]
      · simpa [Double.signed] using hpos.ne'
    have hvalue : Decimal.value ⟨n.natAbs, 0⟩ = Double.magnitude rank := by
      rw [Decimal.value_nat, hmagnitude]
    rw [slotInteger_eq_text hpos hn, Double.text_slot_of_pos negative hr, hsign,
      Numeral.text_injective.eq_iff, Decimal.numeral_eq_iff, eq_comm,
      Double.value_shortest_eq_iff hr hvalue]
    constructor
    · intro hleast sign d hd
      exact hleast d (Double.ofDecimal_eq_finite_iff.mp hd).2
    · intro hleast d hd
      exact hleast negative d (Double.ofDecimal_eq_finite_iff.mpr ⟨rfl, hd⟩)

/-- The texts of small integers and of their doubles are the same. -/
theorem slotInteger_eq_of_lt {x : Double} {n : Int} (hx : x.toInt? = some n)
    (hn : n.natAbs < 2 ^ 53) : slotInteger n = x.text .slot := by
  rw [slotInteger_eq_iff hx (hn.trans (by decide))]
  intro sign d hd
  obtain ⟨negative, rank, rfl, -, hmagnitude⟩ := Double.toInt?_eq_some hx
  have hread := (Double.ofDecimal_eq_finite_iff.mp hd).2
  rcases Nat.eq_zero_or_pos n.natAbs with hzero | hpos
  · rw [hzero]
    exact Nat.zero_le _
  · exact hread.precision_le (Double.pos_of_magnitude hmagnitude hpos) hn hmagnitude

theorem lowerArgument_int_eq_iff {least : Int} {path : Path} {n : Int} {x : Double} :
    lowerArgument least path (.int n) = lowerArgument least path (.float x) ↔
      slotInteger n = x.text .slot := by
  rw [lowerArgument, lowerArgument]
  generalize slotInteger n = whole
  generalize x.text .slot = shown
  constructor
  · intro h
    cases h
    rfl
  · rintro rfl
    rfl

/-- An integer below `1e21` in an argument slot has the text of the double of the same value exactly
if no decimal with fewer significant digits is read as this double. All integers below `2 ^ 53`
have it. Others need not: every digit of an integer is shown, but zeros stand for the digits of a
double that are not needed to read it back. -/
theorem integer_text_eq_iff (least : Int) (path : Path) {x : Double} {n : Int}
    (hx : x.toInt? = some n) (hn : n.natAbs < 10 ^ 21) :
    (lowerArgument least path (.int n) = lowerArgument least path (.float x) ↔
      ∀ (negative : Bool) (d : Decimal), Double.ofDecimal negative d = x →
        Decimal.precision ⟨n.natAbs, 0⟩ ≤ d.precision) ∧
    (n.natAbs < 2 ^ 53 →
      lowerArgument least path (.int n) = lowerArgument least path (.float x)) := by
  rw [lowerArgument_int_eq_iff]
  exact ⟨slotInteger_eq_iff hx hn, slotInteger_eq_of_lt hx⟩

/-- The double `2 ^ 56`. -/
def largePower : Double := .finite false ⟨1079 * Double.binade, by decide⟩

theorem largePower_text_differs :
    largePower.toInt? = some 72057594037927936 ∧
      lowerArgument 2 .top (.int 72057594037927936) ≠ lowerArgument 2 .top (.float largePower) ∧
      lowerArgument 2 .top (.int 100) = lowerArgument 2 .top (.float (Double.ofInt 100)) := by
  have hlarge : largePower.toInt? = some 72057594037927936 := by decide +kernel
  have hsmall : (Double.ofInt 100).toInt? = some 100 := by decide +kernel
  refine ⟨hlarge, fun h => ?_, (integer_text_eq_iff 2 .top hsmall (by decide)).2 (by decide)⟩
  have hleast := (integer_text_eq_iff 2 .top hlarge (by decide)).1.mp h
  have hread : Double.ofDecimal false ⟨7205759403792794, 1⟩ = largePower := by decide +kernel
  exact absurd (hleast false _ hread) (by decide +kernel)

end BlockFlow
