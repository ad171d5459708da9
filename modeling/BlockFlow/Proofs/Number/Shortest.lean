import Mathlib
import BlockFlow.Proofs.Number.Layouts
import BlockFlow.Proofs.Number.Rounding

/-! The decimal that is chosen for a double has the fewest significant digits of all decimals that
read back as it. -/

namespace BlockFlow

/-! ### Decades -/

/-- If a number is at least the power before one and less than another, the powers are in order. -/
theorem le_of_zpow_bounds {v : ℚ} {a b : Int} (ha : (10 : ℚ) ^ (a - 1) ≤ v) (hb : v < 10 ^ b) :
    a ≤ b := by
  have hlt := (zpow_lt_zpow_iff_right₀ (by norm_num)).mp (ha.trans_lt hb)
  omega

theorem zpow_mul_pow {a b : Int} {k : Nat} (h : a + k = b) : (10 : ℚ) ^ a * 10 ^ k = 10 ^ b := by
  rw [← h, zpow_add₀ (by norm_num), zpow_natCast]

theorem lt_pow_digitCount (n : Nat) : n < 10 ^ digitCount n := by
  by_contra hle
  exact lt_irrefl _ (lt_digitCount (not_lt.mp hle))

theorem pow_digitCount_le {n : Nat} (h : 0 < n) : 10 ^ (digitCount n - 1) ≤ n := by
  by_contra hlt
  rcases Nat.eq_zero_or_pos (digitCount n - 1) with hzero | hpos
  · rw [hzero] at hlt
    omega
  · have hle := digitCount_le hpos (not_le.mp hlt)
    omega

theorem digitCount_pos (n : Nat) : 0 < digitCount n := Nat.length_toDigits_pos

/-- The number that a decimal is. -/
def Decimal.value (d : Decimal) : ℚ := d.coefficient * 10 ^ d.exponent

namespace Decimal

variable {d : Decimal}

theorem value_pos (h : 0 < d.coefficient) : 0 < d.value := by
  unfold value
  positivity

theorem coefficient_pos (h : 0 < d.value) : 0 < d.coefficient := by
  refine Nat.pos_of_ne_zero fun hzero => h.ne ?_
  simp [value, hzero]

theorem top_bounds (h : 0 < d.coefficient) :
    (10 : ℚ) ^ (d.top - 1) ≤ d.value ∧ d.value < 10 ^ d.top := by
  have hten : (0 : ℚ) < 10 ^ d.exponent := by positivity
  have hcount := digitCount_pos d.coefficient
  have hlow : (10 : ℚ) ^ (digitCount d.coefficient - 1) ≤ d.coefficient := by
    exact_mod_cast pow_digitCount_le h
  have hhigh : (d.coefficient : ℚ) < 10 ^ digitCount d.coefficient := by
    exact_mod_cast lt_pow_digitCount d.coefficient
  constructor
  · have hpow : (10 : ℚ) ^ (d.top - 1) =
        10 ^ (digitCount d.coefficient - 1) * 10 ^ d.exponent := by
      rw [← zpow_natCast, ← zpow_add₀ (by norm_num)]
      congr 1
      unfold top
      omega
    rw [hpow, value]
    exact mul_le_mul_of_nonneg_right hlow hten.le
  · have hpow : (10 : ℚ) ^ d.top = 10 ^ digitCount d.coefficient * 10 ^ d.exponent := by
      rw [← zpow_natCast, ← zpow_add₀ (by norm_num)]
      rfl
    rw [hpow, value]
    exact mul_lt_mul_of_pos_right hhigh hten

end Decimal

theorem decimalTop_bounds {num den : Nat} (hn : 0 < num) (hd : 0 < den) :
    (10 : ℚ) ^ (decimalTop num den - 1) ≤ num / den ∧
      (num : ℚ) / den < 10 ^ decimalTop num den := by
  have hdq : (0 : ℚ) < den := by exact_mod_cast hd
  rw [le_div_iff₀ hdq, div_lt_iff₀ hdq]
  unfold decimalTop
  split
  · next hle =>
    have hcount := digitCount_pos (num / den)
    have hlow : 10 ^ (digitCount (num / den) - 1) * den ≤ num :=
      (Nat.mul_le_mul_right _ (pow_digitCount_le (Nat.div_pos hle hd))).trans
        (Nat.div_mul_le_self _ _)
    have hhigh : num < 10 ^ digitCount (num / den) * den :=
      (Nat.div_lt_iff_lt_mul hd).mp (lt_pow_digitCount _)
    have hpred : (digitCount (num / den) : Int) - 1 = (digitCount (num / den) - 1 : Nat) := by omega
    rw [hpred, zpow_natCast, zpow_natCast]
    exact_mod_cast And.intro hlow hhigh
  · next hlt =>
    have hsteps : 0 < (den - 1) / num := Nat.div_pos (by omega) hn
    have hcount := digitCount_pos ((den - 1) / num)
    have hlow : den ≤ num * 10 ^ digitCount ((den - 1) / num) := by
      have hfloor := (Nat.div_lt_iff_lt_mul hn).mp (lt_pow_digitCount ((den - 1) / num))
      rw [Nat.mul_comm]
      omega
    have hhigh : num * 10 ^ (digitCount ((den - 1) / num) - 1) < den := by
      have hceil := (Nat.mul_le_mul_right num (pow_digitCount_le hsteps)).trans
        (Nat.div_mul_le_self (den - 1) num)
      rw [Nat.mul_comm]
      omega
    have hpred : (1 - digitCount ((den - 1) / num) : Int) - 1 =
        -(digitCount ((den - 1) / num) : Nat) := by omega
    have hneg : (1 - digitCount ((den - 1) / num) : Int) =
        -(digitCount ((den - 1) / num) - 1 : Nat) := by omega
    rw [if_neg hsteps.ne', hpred, hneg, zpow_neg, zpow_neg, zpow_natCast, zpow_natCast,
      inv_mul_le_iff₀ (by positivity), ← div_eq_inv_mul, lt_div_iff₀ (by positivity),
      mul_comm _ (num : ℚ)]
    exact_mod_cast And.intro hlow hhigh

namespace Double

/-- The magnitude of a rank, as a number. -/
def magnitude (rank : Nat) : ℚ := units rank / unitsPerOne

variable {rank : Fin rankCount}

theorem magnitude_pos (hr : 0 < (rank : Nat)) : 0 < magnitude rank := by
  have hunits := units_pos hr
  have hpos := unitsPerOne_pos
  unfold magnitude
  generalize unitsPerOne = u at *
  positivity

/-- The least power of ten above a magnitude. -/
def topOf (rank : Nat) : Int := decimalTop (units rank) unitsPerOne

theorem topOf_bounds (hr : 0 < (rank : Nat)) :
    (10 : ℚ) ^ (topOf rank - 1) ≤ magnitude rank ∧ magnitude rank < 10 ^ topOf rank :=
  decimalTop_bounds (units_pos hr) unitsPerOne_pos

theorem topOf_range (hr : 0 < (rank : Nat)) : -323 ≤ topOf rank ∧ topOf rank ≤ 309 := by
  obtain ⟨hlow, hhigh⟩ := topOf_bounds hr
  have hunits := units_pos hr
  have hpos := unitsPerOne_pos
  have hq : (rank : Nat) / binade ≤ 2046 := by
    have hlt : (rank : Nat) < binade * 2047 := Nat.mul_comm _ _ ▸ rank.isLt
    exact Nat.le_of_lt_succ (Nat.div_lt_of_lt_mul hlt)
  have hleast : unitsPerOne ≤ 10 ^ 324 := by decide +kernel
  have hmost : 2 * binade * 2 ^ 2045 ≤ 10 ^ 309 * unitsPerOne := by decide +kernel
  have hlarge := (units_lt hq).trans_le hmost
  unfold magnitude at hlow hhigh
  generalize unitsPerOne = u at *
  have hu : (0 : ℚ) < u := by exact_mod_cast hpos
  constructor
  · refine le_of_zpow_bounds ?_ hhigh
    have hone : (1 : ℚ) ≤ units rank := by exact_mod_cast hunits
    have hle : (u : ℚ) ≤ 10 ^ 324 := by exact_mod_cast hleast
    rw [show (-323 - 1 : Int) = -(324 : Nat) from rfl, zpow_neg, zpow_natCast, le_div_iff₀ hu,
      inv_mul_le_iff₀ (by positivity)]
    exact hle.trans (le_mul_of_one_le_right (by positivity) hone)
  · refine le_of_zpow_bounds hlow ?_
    rw [div_lt_iff₀ hu, show (309 : Int) = (309 : Nat) from rfl, zpow_natCast]
    exact_mod_cast hlarge

end Double

/-! ### Reading decimals -/

namespace Double

variable {rank : Fin rankCount}

theorem rankNear_of_ratio_le {num den num' den' : Nat} (hd : 0 < den) (hd' : 0 < den')
    (h : (num : ℚ) / den ≤ num' / den') :
    rankNear (num * unitsPerOne) den ≤ rankNear (num' * unitsPerOne) den' := by
  refine rankNear_mono hd hd' ?_
  have hcross : num * den' ≤ num' * den := by
    rw [div_le_div_iff₀ (by exact_mod_cast hd) (by exact_mod_cast hd')] at h
    exact_mod_cast h
  rw [Nat.mul_right_comm, Nat.mul_right_comm num']
  exact Nat.mul_le_mul_right _ hcross

theorem rankNear_units (rank : Fin rankCount) :
    rankNear (units rank * unitsPerOne) unitsPerOne = rank :=
  ofRatio_eq_finite_iff.mp (ofRatio_units false rank)

end Double

namespace Decimal

open Double

variable {d p : Decimal} {rank : Fin rankCount}

/-- A decimal is read as the magnitude of this rank. -/
def ReadsAs (d : Decimal) (rank : Fin rankCount) : Prop := ofDecimal false d = .finite false rank

theorem exists_ratio (d : Decimal) : ∃ num den : Nat, 0 < den ∧ (num : ℚ) / den = d.value ∧
    (0 < d.coefficient → -330 ≤ d.top → d.top ≤ 310 →
      ofDecimal false d = ofRatio false num den) := by
  obtain ⟨c, e⟩ := d
  cases e with
  | ofNat e =>
    refine ⟨c * 10 ^ e, 1, Nat.one_pos, by simp [value], ?_⟩
    intro hc hlow hhigh
    rw [ofDecimal, if_neg (Nat.ne_of_gt hc), if_neg (by omega), if_neg (by omega)]
    rfl
  | negSucc e =>
    refine ⟨c, 10 ^ (e + 1), by positivity, ?_, ?_⟩
    · rw [value, zpow_negSucc, div_eq_mul_inv]
      push_cast
      rfl
    · intro hc hlow hhigh
      rw [ofDecimal, if_neg (Nat.ne_of_gt hc), if_neg (by omega), if_neg (by omega)]
      rfl

/-- A decimal that is read as a magnitude other than zero is within the range that is computed. -/
theorem ReadsAs.range (h : d.ReadsAs rank) (hr : 0 < (rank : Nat)) :
    0 < d.coefficient ∧ -330 ≤ d.top ∧ d.top ≤ 310 := by
  have hzero : zero false ≠ .finite false rank := by
    intro hz
    cases hz
    exact hr.ne rfl
  unfold ReadsAs ofDecimal at h
  split at h
  · exact (hzero h).elim
  split at h
  · cases h
  split at h
  · exact (hzero h).elim
  · omega

theorem top_le_of_value_le (hd : 0 < d.coefficient) (hp : 0 < p.coefficient)
    (h : d.value ≤ p.value) : d.top ≤ p.top :=
  le_of_zpow_bounds ((top_bounds hd).1.trans h) (top_bounds hp).2

theorem top_eq_topOf (hr : 0 < (rank : Nat)) (h : d.value = magnitude rank) :
    d.top = topOf rank := by
  obtain ⟨hlow, hhigh⟩ := top_bounds (coefficient_pos (h ▸ magnitude_pos hr))
  obtain ⟨hlow', hhigh'⟩ := topOf_bounds hr
  rw [h] at hlow hhigh
  exact (le_of_zpow_bounds hlow hhigh').antisymm (le_of_zpow_bounds hlow' hhigh)

/-- Whatever lies between a magnitude and a decimal that is read as it, is read as it. -/
theorem ReadsAs.of_between (h : d.ReadsAs rank) (hr : 0 < (rank : Nat))
    (hbetween : d.value ≤ p.value ∧ p.value ≤ magnitude rank ∨
      magnitude rank ≤ p.value ∧ p.value ≤ d.value) : p.ReadsAs rank := by
  obtain ⟨num, den, hden, hvalue, hratio⟩ := d.exists_ratio
  obtain ⟨num', den', hden', hvalue', hratio'⟩ := p.exists_ratio
  obtain ⟨hc, hlow, hhigh⟩ := h.range hr
  obtain ⟨hleast, hmost⟩ := topOf_range hr
  obtain ⟨hdecade, hdecade'⟩ := topOf_bounds hr
  have hunits := rankNear_units rank
  rw [ReadsAs, hratio hc hlow hhigh, ofRatio_eq_finite_iff] at h
  rcases hbetween with ⟨hfirst, hsecond⟩ | ⟨hfirst, hsecond⟩
  · have hp := coefficient_pos ((value_pos hc).trans_le hfirst)
    have htop := top_le_of_value_le hc hp hfirst
    have htop' := le_of_zpow_bounds ((top_bounds hp).1.trans hsecond) hdecade'
    rw [← hvalue'] at hfirst hsecond
    rw [← hvalue] at hfirst
    rw [ReadsAs, hratio' hp (by omega) (by omega), ofRatio_eq_finite_iff]
    have hle := rankNear_of_ratio_le hden' unitsPerOne_pos hsecond
    have hge := rankNear_of_ratio_le hden hden' hfirst
    omega
  · have hp := coefficient_pos ((magnitude_pos hr).trans_le hfirst)
    have htop := top_le_of_value_le hp hc hsecond
    have htop' := le_of_zpow_bounds (hdecade.trans hfirst) (top_bounds hp).2
    rw [← hvalue'] at hfirst hsecond
    rw [← hvalue] at hsecond
    rw [ReadsAs, hratio' hp (by omega) (by omega), ofRatio_eq_finite_iff]
    have hle := rankNear_of_ratio_le hden' hden hsecond
    have hge := rankNear_of_ratio_le unitsPerOne_pos hden' hfirst
    omega

/-- A decimal that differs from a magnitude by less than a part in `2 ^ 54` is read as it. -/
theorem ReadsAs.of_near (hr : 0 < (rank : Nat))
    (hlow : (2 ^ 54 - 1) * magnitude rank < 2 ^ 54 * p.value)
    (hhigh : 2 ^ 54 * p.value < (2 ^ 54 + 1) * magnitude rank) : p.ReadsAs rank := by
  obtain ⟨num, den, hden, hvalue, hratio⟩ := p.exists_ratio
  obtain ⟨hleast, hmost⟩ := topOf_range hr
  obtain ⟨hdecade, hdecade'⟩ := topOf_bounds hr
  have hmagnitude := magnitude_pos hr
  have hp : 0 < p.coefficient := coefficient_pos (by linarith)
  obtain ⟨htop, htop'⟩ := top_bounds hp
  have hten : (10 : ℚ) ≠ 0 := by norm_num
  have hlower : topOf rank - 1 ≤ p.top := by
    refine le_of_zpow_bounds ?_ htop'
    rw [zpow_sub_one₀ hten]
    linarith
  have hupper : p.top ≤ topOf rank + 1 := by
    refine le_of_zpow_bounds htop ?_
    rw [zpow_add_one₀ hten]
    linarith
  rw [ReadsAs, hratio hp (by omega) (by omega), ofRatio_eq_finite_iff]
  have hunits := unitsPerOne_pos
  rw [← hvalue, magnitude] at hlow hhigh
  generalize unitsPerOne = u at *
  have hu : (0 : ℚ) < u := by exact_mod_cast hunits
  have hd : (0 : ℚ) < den := by exact_mod_cast hden
  rw [← mul_div_assoc, ← mul_div_assoc, div_lt_div_iff₀ hu hd] at hlow
  rw [← mul_div_assoc, ← mul_div_assoc, div_lt_div_iff₀ hd hu] at hhigh
  refine rankNear_eq hden ?_ ?_
  · have hcast : ((2 ^ 54 - 1 : Nat) : ℚ) = 2 ^ 54 - 1 := by norm_num
    rw [← Nat.mul_assoc, ← Nat.mul_assoc]
    exact_mod_cast hcast ▸ hlow
  · rw [← Nat.mul_assoc, ← Nat.mul_assoc]
    exact_mod_cast hhigh

end Decimal

/-! ### Grids -/

namespace Double

variable {rank : Fin rankCount} {e : Int} {d : Decimal}

theorem overPowerOfTen_spec (num : Nat) {den : Nat} (hd : 0 < den) (e : Int) :
    0 < (overPowerOfTen num den e).2 ∧
      ((overPowerOfTen num den e).1 : ℚ) / (overPowerOfTen num den e).2 = num / den / 10 ^ e := by
  cases e with
  | ofNat e =>
    refine ⟨Nat.mul_pos hd (Nat.pow_pos (by decide)), ?_⟩
    change (num : ℚ) / ((den * 10 ^ e : Nat) : ℚ) = num / den / 10 ^ (e : Int)
    push_cast
    rw [zpow_natCast, div_div]
  | negSucc e =>
    refine ⟨hd, ?_⟩
    change ((num * 10 ^ (e + 1) : Nat) : ℚ) / den = num / den / 10 ^ Int.negSucc e
    push_cast
    rw [zpow_negSucc, div_inv_eq_mul, mul_div_right_comm]

/-- The greatest multiple of a power of ten up to a magnitude, as a multiple. -/
def gridFloor (rank : Fin rankCount) (e : Int) : Nat :=
  (overPowerOfTen (units rank) unitsPerOne e).1 / (overPowerOfTen (units rank) unitsPerOne e).2

theorem gridFloor_bounds (rank : Fin rankCount) (e : Int) :
    (gridFloor rank e : ℚ) * 10 ^ e ≤ magnitude rank ∧
      magnitude rank < (gridFloor rank e + 1) * 10 ^ e := by
  have hten : (0 : ℚ) < 10 ^ e := by positivity
  obtain ⟨hpos, hratio⟩ := overPowerOfTen_spec (units rank) unitsPerOne_pos e
  rw [← le_div_iff₀ hten, ← div_lt_iff₀ hten]
  unfold gridFloor magnitude
  rw [← hratio]
  generalize overPowerOfTen (units rank) unitsPerOne e = r at hpos ⊢
  have hq : (0 : ℚ) < r.2 := by exact_mod_cast hpos
  rw [le_div_iff₀ hq, div_lt_iff₀ hq]
  have hlt := (Nat.div_lt_iff_lt_mul hpos).mp (Nat.lt_succ_self (r.1 / r.2))
  constructor
  · exact_mod_cast Nat.div_mul_le_self r.1 r.2
  · exact_mod_cast hlt

/-- The nearest multiple of a power of ten. -/
def gridNear (rank : Fin rankCount) (e : Int) : Nat :=
  roundDiv (overPowerOfTen (units rank) unitsPerOne e).1
    (overPowerOfTen (units rank) unitsPerOne e).2

/-- The multiple of a power of ten on the other side of the magnitude. -/
def gridFar (rank : Fin rankCount) (e : Int) : Nat :=
  if gridNear rank e = gridFloor rank e then gridNear rank e + 1 else gridNear rank e - 1

theorem onGrid_eq (rank : Fin rankCount) (e : Int) :
    onGrid rank e =
      if ofDecimal false ⟨gridNear rank e, e⟩ == .finite false rank then some ⟨gridNear rank e, e⟩
      else if ofDecimal false ⟨gridFar rank e, e⟩ == .finite false rank then
        some ⟨gridFar rank e, e⟩
      else none := rfl

theorem gridNear_cases (rank : Fin rankCount) (e : Int) :
    gridNear rank e = gridFloor rank e ∧ gridFar rank e = gridFloor rank e + 1 ∨
      gridNear rank e = gridFloor rank e + 1 ∧ gridFar rank e = gridFloor rank e := by
  have hcases : gridNear rank e = gridFloor rank e ∨ gridNear rank e = gridFloor rank e + 1 := by
    unfold gridNear gridFloor
    generalize overPowerOfTen (units rank) unitsPerOne e = r
    simp only [roundDiv]
    split <;> simp
  rcases hcases with heq | heq <;> simp [gridFar, heq]

theorem onGrid_cases (h : onGrid rank e = some d) :
    d = ⟨gridFloor rank e, e⟩ ∨ d = ⟨gridFloor rank e + 1, e⟩ := by
  rw [onGrid_eq] at h
  split at h
  · cases h
    rcases gridNear_cases rank e with ⟨hnear, -⟩ | ⟨hnear, -⟩ <;> simp [hnear]
  · split at h
    · cases h
      rcases gridNear_cases rank e with ⟨-, hfar⟩ | ⟨-, hfar⟩ <;> simp [hfar]
    · cases h

theorem onGrid_isSome (h : Decimal.ReadsAs ⟨gridFloor rank e, e⟩ rank ∨
    Decimal.ReadsAs ⟨gridFloor rank e + 1, e⟩ rank) : (onGrid rank e).isSome = true := by
  have hread : Decimal.ReadsAs ⟨gridNear rank e, e⟩ rank ∨
      Decimal.ReadsAs ⟨gridFar rank e, e⟩ rank := by
    rcases gridNear_cases rank e with ⟨hnear, hfar⟩ | ⟨hnear, hfar⟩ <;> rw [hnear, hfar]
    · exact h
    · exact h.symm
  unfold Decimal.ReadsAs at hread
  rw [onGrid_eq]
  split
  · rfl
  · split
    · rfl
    · simp_all

/-- If a multiple of a power of ten is read as a magnitude, so is one next to the magnitude. -/
theorem onGrid_isSome_of_multiple (h : d.ReadsAs rank) (hr : 0 < (rank : Nat)) {m : Nat}
    (hm : d.value = m * 10 ^ e) : (onGrid rank e).isSome = true := by
  have hten : (0 : ℚ) < 10 ^ e := by positivity
  obtain ⟨hlow, hhigh⟩ := gridFloor_bounds rank e
  apply onGrid_isSome
  rcases Nat.lt_or_ge (gridFloor rank e) m with hlt | hle
  · have hcast : (gridFloor rank e : ℚ) + 1 ≤ m := by exact_mod_cast hlt
    refine .inr (h.of_between hr (.inr ⟨?_, ?_⟩))
    · simpa [Decimal.value] using hhigh.le
    · rw [hm]
      simpa [Decimal.value] using mul_le_mul_of_nonneg_right hcast hten.le
  · have hcast : (m : ℚ) ≤ gridFloor rank e := by exact_mod_cast hle
    refine .inl (h.of_between hr (.inl ⟨?_, hlow⟩))
    rw [hm]
    exact mul_le_mul_of_nonneg_right hcast hten.le

/-- A magnitude that is on a grid is found there. -/
theorem onGrid_exact (hr : 0 < (rank : Nat)) {m : Nat} (hm : magnitude rank = m * 10 ^ e) :
    onGrid rank e = some ⟨m, e⟩ := by
  have hnear : gridNear rank e = m := by
    obtain ⟨hpos, hratio⟩ := overPowerOfTen_spec (units rank) unitsPerOne_pos e
    unfold magnitude at hm
    rw [hm, mul_div_cancel_right₀ _ (by positivity)] at hratio
    unfold gridNear
    generalize overPowerOfTen (units rank) unitsPerOne e = r at hpos hratio ⊢
    rw [div_eq_iff (by exact_mod_cast hpos.ne')] at hratio
    have hexact : r.1 = m * r.2 := by exact_mod_cast hratio
    rw [hexact, roundDiv_mul_self hpos]
  have hmagnitude := magnitude_pos hr
  have hread : Decimal.ReadsAs ⟨m, e⟩ rank := by
    refine .of_near hr ?_ ?_ <;> rw [Decimal.value, ← hm] <;> linarith
  unfold Decimal.ReadsAs at hread
  rw [onGrid_eq, hnear, if_pos (by simpa using hread)]

theorem gridNear_bounds (rank : Fin rankCount) (e : Int) :
    2 * magnitude rank ≤ (2 * gridNear rank e + 1) * 10 ^ e ∧
      (2 * gridNear rank e : ℚ) * 10 ^ e ≤ 2 * magnitude rank + 10 ^ e := by
  have hten : (0 : ℚ) < 10 ^ e := by positivity
  obtain ⟨hpos, hratio⟩ := overPowerOfTen_spec (units rank) unitsPerOne_pos e
  have hvalue : magnitude rank = magnitude rank / 10 ^ e * 10 ^ e :=
    (div_mul_cancel₀ _ hten.ne').symm
  rw [hvalue]
  unfold gridNear magnitude
  rw [← hratio]
  generalize overPowerOfTen (units rank) unitsPerOne e = r at hpos ⊢
  have hq : (0 : ℚ) < r.2 := by exact_mod_cast hpos
  obtain ⟨hle, hge⟩ := roundDiv_bounds r.1 hpos
  have hle' : 2 * (r.1 : ℚ) ≤ 2 * (roundDiv r.1 r.2 * r.2) + r.2 := by exact_mod_cast hle
  have hge' : 2 * (roundDiv r.1 r.2 * r.2 : ℚ) ≤ 2 * r.1 + r.2 := by exact_mod_cast hge
  have hfirst : 2 * (r.1 / r.2 : ℚ) ≤ 2 * roundDiv r.1 r.2 + 1 := by
    rw [← mul_div_assoc, div_le_iff₀ hq]
    linarith
  have hsecond : 2 * (roundDiv r.1 r.2 : ℚ) ≤ 2 * (r.1 / r.2) + 1 := by
    rw [← sub_le_iff_le_add, ← mul_div_assoc, le_div_iff₀ hq]
    linarith
  constructor
  · linarith [mul_le_mul_of_nonneg_right hfirst hten.le]
  · linarith [mul_le_mul_of_nonneg_right hsecond hten.le]

/-- Seventeen digits suffice for every magnitude. -/
theorem onGrid_seventeen (hr : 0 < (rank : Nat)) :
    (onGrid rank (topOf rank - 17)).isSome = true := by
  have hmagnitude := magnitude_pos hr
  obtain ⟨hlow, hhigh⟩ := gridNear_bounds rank (topOf rank - 17)
  have hstep : (10 : ℚ) ^ (topOf rank - 17) * 10 ^ 16 ≤ magnitude rank := by
    rw [zpow_mul_pow (b := topOf rank - 1) (by omega)]
    exact (topOf_bounds hr).1
  have hread : Decimal.ReadsAs ⟨gridNear rank (topOf rank - 17), topOf rank - 17⟩ rank := by
    refine .of_near hr ?_ ?_ <;> rw [Decimal.value] <;> linarith
  apply onGrid_isSome
  rcases gridNear_cases rank (topOf rank - 17) with ⟨hnear, -⟩ | ⟨hnear, -⟩
  · exact .inl (hnear ▸ hread)
  · exact .inr (hnear ▸ hread)

end Double

/-! ### Significant digits -/

namespace Decimal

open Double

variable {d p : Decimal} {rank : Fin rankCount}

/-- How many significant digits a decimal has. -/
def precision (d : Decimal) : Nat := d.significant.1.length

theorem precision_pos (h : 0 < d.coefficient) : 0 < d.precision :=
  List.length_pos_iff.mpr (significant_spec h).1

theorem precision_le_digitCount (d : Decimal) : d.precision ≤ digitCount d.coefficient :=
  d.significant_prefix.length_le

theorem value_eq_significant (h : 0 < d.coefficient) :
    d.value = digitsValue d.significant.1 * 10 ^ (d.top - d.precision) := by
  obtain ⟨-, zeros, hvalue, hplace⟩ := significant_spec h
  have hexponent : d.top - d.precision = d.exponent + zeros := hplace
  rw [hexponent, value, hvalue, zpow_add₀ (by norm_num), zpow_natCast]
  push_cast
  rw [digitsValue]
  ring

theorem magnitude_numeral (h : 0 < d.coefficient) (negative : Bool) :
    (d.numeral h negative).magnitude = d.value := by
  rw [value_eq_significant h, zpow_sub₀ (by norm_num), zpow_natCast]
  change (digitsValue d.significant.1 : ℚ) / 10 ^ d.precision * 10 ^ d.top = _
  ring

/-- Decimals of one value have the same significant digits. -/
theorem precision_eq (hd : 0 < d.coefficient) (h : d.value = p.value) :
    d.precision = p.precision := by
  have hp : 0 < p.coefficient := coefficient_pos (h ▸ value_pos hd)
  rw [← magnitude_numeral hd false, ← magnitude_numeral hp false] at h
  exact congrArg List.length (Numeral.digits_eq h)

theorem precision_le {k : Nat} (hd : 0 < d.coefficient) (hk : 0 < k) (h : d.coefficient ≤ 10 ^ k) :
    d.precision ≤ k := by
  rcases h.eq_or_lt with heq | hlt
  · have hvalue : d.value = value ⟨1, k + d.exponent⟩ := by
      rw [value, heq, value, zpow_add₀ (by norm_num), zpow_natCast]
      push_cast
      ring
    have hone : precision ⟨1, k + d.exponent⟩ = 1 := by
      rw [precision, significant, Nat.toDigits_of_lt_base (show 1 < 10 by decide)]
      rfl
    rw [precision_eq hd hvalue, hone]
    exact hk
  · exact d.precision_le_digitCount.trans (digitCount_le hk hlt)

/-- A decimal that is read as a magnitude makes the grid of its precision have one. -/
theorem ReadsAs.onGrid_isSome (h : d.ReadsAs rank) (hr : 0 < (rank : Nat)) :
    (onGrid rank (topOf rank - d.precision)).isSome = true := by
  obtain ⟨hd, -, -⟩ := h.range hr
  rcases lt_or_ge d.top (topOf rank) with hlt | hle
  · -- the power of ten between the decimal and the magnitude has one digit
    have hbelow : d.value ≤ 10 ^ (topOf rank - 1) :=
      (top_bounds hd).2.le.trans (zpow_le_zpow_right₀ (by norm_num) (by omega))
    have hone : value ⟨1, topOf rank - 1⟩ = 10 ^ (topOf rank - 1) := by simp [value]
    have hread : ReadsAs ⟨1, topOf rank - 1⟩ rank :=
      h.of_between hr (.inl (hone ▸ ⟨hbelow, (topOf_bounds hr).1⟩))
    have hpos := precision_pos hd
    refine onGrid_isSome_of_multiple hread hr (m := 10 ^ (d.precision - 1)) ?_
    rw [hone, mul_comm, Nat.cast_pow, Nat.cast_ofNat]
    exact (zpow_mul_pow (by omega)).symm
  · refine onGrid_isSome_of_multiple h hr
      (m := digitsValue d.significant.1 * 10 ^ (d.top - topOf rank).toNat) ?_
    rw [value_eq_significant hd, Nat.cast_mul, Nat.cast_pow, Nat.cast_ofNat, mul_assoc,
      mul_comm (10 ^ _), zpow_mul_pow (b := d.top - d.precision) (by omega)]

end Decimal

namespace Double

open Decimal

variable {rank : Fin rankCount} {d p : Decimal}

theorem precision_onGrid {k : Nat} (hr : 0 < (rank : Nat)) (hk : 0 < k)
    (h : onGrid rank (topOf rank - k) = some d) : d.precision ≤ k := by
  obtain ⟨hd, -, -⟩ := ReadsAs.range (onGrid_reads_back h) hr
  have hfloor : gridFloor rank (topOf rank - k) < 10 ^ k := by
    have hlt := (gridFloor_bounds rank (topOf rank - k)).1.trans_lt (topOf_bounds hr).2
    rw [← lt_div_iff₀ (by positivity), ← zpow_sub₀ (by norm_num), sub_sub_cancel,
      zpow_natCast] at hlt
    exact_mod_cast hlt
  refine precision_le hd hk ?_
  rcases onGrid_cases h with rfl | rfl
  · exact hfloor.le
  · exact hfloor

theorem shortest_eq (rank : Fin rankCount) :
    shortest rank = ((List.range 17).findSome? fun n : Nat =>
      onGrid rank (topOf rank - n - 1)).getD (exactDecimal rank) := rfl

/-- The shortest decimal is the one on the first grid that has one. -/
theorem exists_onGrid_shortest {n : Nat} (hn : n < 17)
    (h : (onGrid rank (topOf rank - (n + 1 : Nat))).isSome = true) :
    ∃ i ≤ n, onGrid rank (topOf rank - (i + 1 : Nat)) = some (shortest rank) := by
  have hgrid (i : Nat) : topOf rank - (i + 1 : Nat) = topOf rank - i - 1 := by
    push_cast
    ring
  simp only [hgrid] at h ⊢
  rw [shortest_eq]
  cases hfirst : (List.range 17).findSome? fun i : Nat => onGrid rank (topOf rank - i - 1) with
  | none =>
    rw [List.findSome?_eq_none_iff.mp hfirst n (List.mem_range.mpr hn)] at h
    exact absurd h Bool.false_ne_true
  | some d =>
    obtain ⟨before, i, after, hrange, hi, hbefore⟩ := List.findSome?_eq_some_iff.mp hfirst
    refine ⟨i, ?_, hi⟩
    by_contra hlt
    have hmem : n ∈ before ++ i :: after := hrange ▸ List.mem_range.mpr hn
    have hsorted := hrange ▸ List.pairwise_lt_range (n := 17)
    rcases List.mem_append.mp hmem with hleft | hright
    · rw [hbefore n hleft] at h
      exact Bool.false_ne_true h
    · have hafter := (List.pairwise_cons.mp (List.pairwise_append.mp hsorted).2.1).1
      rcases List.mem_cons.mp hright with rfl | hright
      · exact hlt le_rfl
      · exact hlt (hafter n hright).le

theorem readsAs_shortest (hr : 0 < (rank : Nat)) : (shortest rank).ReadsAs rank :=
  ofDecimal_shortest hr

theorem precision_shortest_le_seventeen (hr : 0 < (rank : Nat)) :
    (shortest rank).precision ≤ 17 := by
  obtain ⟨i, hi, hgrid⟩ := exists_onGrid_shortest (n := 16) (by decide) (onGrid_seventeen hr)
  exact (precision_onGrid hr i.succ_pos hgrid).trans (by omega)

/-- No decimal that is read as a magnitude has fewer digits than the one that is chosen. -/
theorem precision_shortest_le (hr : 0 < (rank : Nat)) (h : d.ReadsAs rank) :
    (shortest rank).precision ≤ d.precision := by
  have hpos := precision_pos (h.range hr).1
  rcases Nat.lt_or_ge 17 d.precision with hmany | hfew
  · exact (precision_shortest_le_seventeen hr).trans hmany.le
  · have hgrid := h.onGrid_isSome hr
    obtain ⟨n, hn⟩ := Nat.exists_eq_succ_of_ne_zero hpos.ne'
    rw [hn] at hgrid hfew ⊢
    obtain ⟨i, hi, hfound⟩ := exists_onGrid_shortest hfew hgrid
    exact (precision_onGrid hr i.succ_pos hfound).trans (Nat.succ_le_succ hi)

/-- A magnitude with few digits is chosen itself exactly if nothing shorter is read as it. -/
theorem value_shortest_eq_iff (hr : 0 < (rank : Nat)) (hp : p.value = magnitude rank) :
    (shortest rank).value = p.value ↔
      ∀ d : Decimal, d.ReadsAs rank → p.precision ≤ d.precision := by
  have hc := coefficient_shortest_pos hr
  constructor
  · intro hvalue d hd
    rw [← precision_eq hc hvalue]
    exact precision_shortest_le hr hd
  · intro hleast
    have hpc : 0 < p.coefficient := coefficient_pos (hp ▸ magnitude_pos hr)
    have hshortest := hleast _ (readsAs_shortest hr)
    have hfew := hshortest.trans (precision_shortest_le_seventeen hr)
    have htop := top_eq_topOf hr hp
    have hvalue := value_eq_significant hpc
    have hexact := onGrid_exact hr (hp ▸ hvalue)
    rw [htop] at hexact
    obtain ⟨n, hn⟩ := Nat.exists_eq_succ_of_ne_zero (precision_pos hpc).ne'
    rw [hn] at hexact hfew hshortest
    obtain ⟨i, hi, hfound⟩ := exists_onGrid_shortest hfew (by rw [hexact]; rfl)
    have hcount := hshortest.trans (precision_onGrid hr i.succ_pos hfound)
    obtain rfl : i = n := by omega
    rw [hexact] at hfound
    rw [← Option.some.inj hfound, hvalue, value, htop, hn]

end Double

end BlockFlow
