import Mathlib
import BlockFlow.Lowering
import BlockFlow.Proofs.Number.Literals

/-! How numbers are laid out in argument slots. The text is a decimal literal of exactly the number
that the significant digits spell, and no other digits have the same text. -/

namespace BlockFlow

/-! ### Layouts -/

namespace DigitLayout

variable (l : DigitLayout) (digits : List Char) {point : Int}

theorem toList_positional_nonpos (h : point ≤ 0) :
    (l.positional digits point).toList = '0' :: '.' :: (zeros point.natAbs ++ digits) := by
  rcases point with (_ | n) | n
  · rw [show l.positional digits (.ofNat 0) = "0." ++ String.ofList digits from rfl]
    simp [zeros]
  · exact absurd h (not_le.mpr (Int.natCast_pos.mpr n.succ_pos))
  · simp [positional]

theorem positional_pos (h : 0 < point) : l.positional digits point =
    if digits.length ≤ point.toNat then
      String.ofList (digits ++ zeros (point.toNat - digits.length)) ++ l.wholeEnding
    else String.ofList (digits.take point.toNat) ++ "." ++
      String.ofList (digits.drop point.toNat) := by
  rcases point with (_ | n) | n
  · exact absurd h (lt_irrefl _)
  · rfl
  · exact absurd h (Int.negSucc_lt_zero n).asymm

theorem toList_scientific (hwidth : l.exponentWidth = 1) (hne : digits ≠ []) :
    (l.scientific digits point).toList = digits.take 1 ++ Literal.pointChars (digits.drop 1) ++
      Literal.exponentChars (some (point - 1)) := by
  have hpadded (m : Nat) : padded 1 (Nat.toDigits 10 m) = Nat.toDigits 10 m := by
    have hpos : 0 < (Nat.toDigits 10 m).length := Nat.length_toDigits_pos
    rw [padded, Nat.sub_eq_zero_of_le hpos, List.replicate_zero, List.nil_append]
  have hexponent : (l.exponentText (point - 1)).toList =
      (if point - 1 < 0 then '-' else '+') :: Nat.toDigits 10 (point - 1).natAbs := by
    rw [exponentText, decimal, hwidth, hpadded]
    split <;> simp
  rcases digits with _ | ⟨d, _ | ⟨e, rest⟩⟩
  · exact absurd rfl hne
  · simp [scientific, Literal.pointChars, Literal.exponentChars, hexponent]
  · simp [scientific, Literal.pointChars, Literal.exponentChars, hexponent]

end DigitLayout

/-! ### Numerals -/

/-- A number by its sign, its significant digits `ds` and the place of its point `n`. Its magnitude
is `0.ds * 10 ^ n`. -/
@[ext] structure Numeral where
  negative : Bool
  digits : List Char
  point : Int
  isDigits : Digits digits
  digits_ne : digits ≠ []
  first_ne : digits.head? ≠ some '0'
  last_ne : digits.getLast? ≠ some '0'

namespace Numeral

variable (n : Numeral)

def magnitude : ℚ := digitsValue n.digits / 10 ^ n.digits.length * 10 ^ n.point

def value : ℚ := if n.negative then -n.magnitude else n.magnitude

/-- The number as it stands in an argument slot. -/
def text : String := Double.withSign n.negative (DoubleFormat.slot.layout.text n.digits n.point)

/-- The number as a literal: with an exponent if it is very small or very large, and else with the
point in front of the digits, behind them or among them. -/
def literal : Literal :=
  if n.point < -5 ∨ 21 < n.point then
    ⟨n.digits.take 1, n.digits.drop 1, some (n.point - 1), n.isDigits.take 1,
      by simp [n.digits_ne], n.isDigits.drop 1⟩
  else if hpoint : n.point ≤ 0 then
    ⟨['0'], DigitLayout.zeros n.point.natAbs ++ n.digits, none, digits_replicate 1, by simp,
      (digits_replicate _).append n.isDigits⟩
  else if n.digits.length ≤ n.point.toNat then
    ⟨n.digits ++ DigitLayout.zeros (n.point.toNat - n.digits.length), [], none,
      n.isDigits.append (digits_replicate _), by simp [n.digits_ne], by simp [Digits]⟩
  else
    ⟨n.digits.take n.point.toNat, n.digits.drop n.point.toNat, none, n.isDigits.take _,
      by simpa [n.digits_ne] using hpoint, n.isDigits.drop _⟩

theorem chars_literal :
    n.literal.chars = (DoubleFormat.slot.layout.text n.digits n.point).toList := by
  have hlayout : DoubleFormat.slot.layout.text n.digits n.point =
      if -5 ≤ n.point ∧ n.point ≤ 21 then DoubleFormat.slot.layout.positional n.digits n.point
      else DoubleFormat.slot.layout.scientific n.digits n.point := rfl
  rw [hlayout, literal]
  by_cases hout : n.point < -5 ∨ 21 < n.point
  · rw [if_pos hout, if_neg (by omega)]
    exact (DigitLayout.toList_scientific _ _ rfl n.digits_ne).symm
  rw [if_neg hout, if_pos (by omega)]
  by_cases hpoint : n.point ≤ 0
  · rw [dif_pos hpoint, DigitLayout.toList_positional_nonpos _ _ hpoint]
    simp [Literal.chars, Literal.pointChars, Literal.exponentChars, n.digits_ne]
  rw [dif_neg hpoint, DigitLayout.positional_pos _ _ (by omega)]
  split
  · simp [Literal.chars, Literal.pointChars, Literal.exponentChars, DoubleFormat.slot]
  · next hinside =>
    have hrest : n.digits.drop n.point.toNat ≠ [] := by
      rw [ne_eq, List.drop_eq_nil_iff]
      exact hinside
    simp [Literal.chars, Literal.pointChars, Literal.exponentChars, hrest]

theorem text_eq : n.text = String.ofList (signChars n.negative ++ n.literal.chars) := by
  rw [text, chars_literal]
  cases n.negative <;> simp [Double.withSign, signChars]

theorem value_literal : n.literal.value = n.magnitude := by
  unfold literal magnitude
  split_ifs with hout hpoint hlength
  · -- one digit stands in front of the point
    have hcount : n.digits.length = (n.digits.drop 1).length + 1 := by
      have hpos := List.length_pos_iff.mpr n.digits_ne
      rw [List.length_drop]
      omega
    rw [Literal.value, List.take_append_drop, hcount, pow_succ, Option.getD_some,
      zpow_sub_one₀ (by norm_num)]
    field_simp
  · -- all digits stand behind the point, and zeros before them
    have hvalue : digitsValue (['0'] ++ (DigitLayout.zeros n.point.natAbs ++ n.digits)) =
        digitsValue n.digits := by
      rw [← List.append_assoc, digitsValue_append, digitsValue_append, digitsValue_zeros]
      simp [digitsValue_singleton]
    have hpow : (10 : ℚ) ^ n.point = ((10 : ℚ) ^ n.point.natAbs)⁻¹ := by
      rw [← zpow_natCast, ← zpow_neg]
      congr 1
      omega
    rw [Literal.value, hvalue, List.length_append, length_zeros,
      Option.getD_none, zpow_zero, hpow, pow_add]
    field_simp
  · -- zeros stand behind the digits
    have hpow : (10 : ℚ) ^ n.point =
        10 ^ n.digits.length * 10 ^ (n.point.toNat - n.digits.length) := by
      rw [← pow_add, ← zpow_natCast]
      congr 1
      omega
    rw [Literal.value, List.append_nil, digitsValue_append, digitsValue_zeros, length_zeros,
      Option.getD_none, zpow_zero, hpow]
    push_cast
    field_simp
    simp
  · have hpow : (10 : ℚ) ^ n.digits.length =
        10 ^ (n.digits.length - n.point.toNat) * 10 ^ n.point := by
      rw [← zpow_natCast, ← zpow_natCast, ← zpow_add₀ (by norm_num)]
      congr 1
      omega
    rw [Literal.value, List.take_append_drop, List.length_drop, Option.getD_none, zpow_zero, hpow]
    field_simp

theorem value?_text : Literal.value? n.text = some n.value := by
  rw [text_eq, Literal.value?_chars, value_literal]
  rfl

/-! ### Plain and exponent notation -/

theorem magnitude_bounds : 10 ^ (n.point - 1) ≤ n.magnitude ∧ n.magnitude < 10 ^ n.point := by
  obtain ⟨d, rest, hdigits⟩ := List.exists_cons_of_ne_nil n.digits_ne
  have hd := n.isDigits
  have hfirst := n.first_ne
  rw [hdigits] at hd hfirst
  have hle : (10 : ℚ) ^ rest.length ≤ digitsValue (d :: rest) := by
    exact_mod_cast le_digitsValue hd (by simpa using hfirst)
  have hlt : (digitsValue (d :: rest) : ℚ) < 10 ^ (d :: rest).length := by
    exact_mod_cast digitsValue_lt hd
  have hpow : (0 : ℚ) < 10 ^ n.point := by positivity
  rw [magnitude, hdigits]
  constructor
  · rw [zpow_sub_one₀ (by norm_num), mul_comm]
    refine mul_le_mul_of_nonneg_right ?_ hpow.le
    rw [le_div_iff₀ (by positivity), List.length_cons, pow_succ]
    linarith
  · refine mul_lt_of_lt_one_left hpow ?_
    rwa [div_lt_one (by positivity)]

theorem magnitude_pos : 0 < n.magnitude :=
  lt_of_lt_of_le (by positivity) n.magnitude_bounds.1

theorem abs_value : |n.value| = n.magnitude := by
  unfold value
  split
  · rw [abs_neg, abs_of_pos n.magnitude_pos]
  · exact abs_of_pos n.magnitude_pos

theorem isPlain_text_iff_point : Literal.isPlain n.text = true ↔ -5 ≤ n.point ∧ n.point ≤ 21 := by
  rw [text_eq, Literal.isPlain_chars, literal]
  split_ifs with hout
  · simp only [Option.isNone_some, Bool.false_eq_true, false_iff]
    omega
  all_goals
    simp only [Option.isNone_none, true_iff]
    omega

theorem isPlain_text : Literal.isPlain n.text = true ↔
    10 ^ (-6 : Int) ≤ |n.value| ∧ |n.value| < 10 ^ (21 : Int) := by
  obtain ⟨hle, hlt⟩ := n.magnitude_bounds
  have hten : (1 : ℚ) < 10 := by norm_num
  rw [isPlain_text_iff_point, abs_value]
  constructor
  · rintro ⟨hlow, hhigh⟩
    constructor
    · exact (zpow_le_zpow_right₀ hten.le (by omega)).trans hle
    · exact hlt.trans_le (zpow_le_zpow_right₀ hten.le hhigh)
  · rintro ⟨hlow, hhigh⟩
    have hfirst := (zpow_lt_zpow_iff_right₀ hten).mp (hlow.trans_lt hlt)
    have hsecond := (zpow_lt_zpow_iff_right₀ hten).mp (hle.trans_lt hhigh)
    omega

/-- The text has the form `d[.ds]e(+|-)x`, where `x` has no zero in front. -/
def IsScientific : Prop :=
  ∃ d rest sign exponent, n.digits = d :: rest ∧ (sign = '+' ∨ sign = '-') ∧ Digits exponent ∧
    exponent ≠ [] ∧ exponent.head? ≠ some '0' ∧ n.text.toList =
      signChars n.negative ++ d :: (Literal.pointChars rest ++ 'e' :: sign :: exponent)

theorem isScientific (h : Literal.isPlain n.text = false) : n.IsScientific := by
  obtain ⟨d, rest, hdigits⟩ := List.exists_cons_of_ne_nil n.digits_ne
  have hout : n.point < -5 ∨ 21 < n.point := by
    have hplain := n.isPlain_text_iff_point
    rw [h] at hplain
    simp only [Bool.false_eq_true, false_iff] at hplain
    omega
  refine ⟨d, rest, if n.point - 1 < 0 then '-' else '+', Nat.toDigits 10 (n.point - 1).natAbs,
    hdigits, ?_, digits_toDigits _, Nat.toDigits_ne_nil, head_toDigits (by omega), ?_⟩
  · split <;> simp
  · rw [text_eq, String.toList_ofList, literal, if_pos hout]
    simp [Literal.chars, Literal.exponentChars, hdigits]

/-! ### One text for each number -/

theorem not_dvd_digits : ¬ 10 ∣ digitsValue n.digits := by
  obtain hnil | ⟨init, c, hinit⟩ := n.digits.eq_nil_or_concat'
  · exact absurd hnil n.digits_ne
  have hd := n.isDigits
  have hlast := n.last_ne
  rw [hinit] at hd hlast ⊢
  exact not_dvd_digitsValue hd (by simpa using hlast)

variable {n} {m : Numeral}

/-- Digits that do not end in a zero are not longer than others of the same fraction. -/
theorem length_le (h : digitsValue n.digits * 10 ^ m.digits.length =
    digitsValue m.digits * 10 ^ n.digits.length) : m.digits.length ≤ n.digits.length := by
  by_contra hlt
  obtain ⟨k, hk⟩ := Nat.exists_eq_add_of_lt (not_le.mp hlt)
  rw [hk, Nat.add_assoc, pow_add, ← mul_assoc, mul_right_comm] at h
  have hvalue := Nat.eq_of_mul_eq_mul_right (by positivity) h
  refine m.not_dvd_digits ⟨digitsValue n.digits * 10 ^ k, ?_⟩
  rw [← hvalue, pow_succ]
  ring

theorem point_eq (h : n.magnitude = m.magnitude) : n.point = m.point := by
  obtain ⟨hle, hlt⟩ := n.magnitude_bounds
  obtain ⟨hle', hlt'⟩ := m.magnitude_bounds
  have hten : (1 : ℚ) < 10 := by norm_num
  rw [h] at hle hlt
  have hfirst := (zpow_lt_zpow_iff_right₀ hten).mp (hle.trans_lt hlt')
  have hsecond := (zpow_lt_zpow_iff_right₀ hten).mp (hle'.trans_lt hlt)
  omega

theorem digits_eq (h : n.magnitude = m.magnitude) : n.digits = m.digits := by
  have hcross : digitsValue n.digits * 10 ^ m.digits.length =
      digitsValue m.digits * 10 ^ n.digits.length := by
    have hpoint := point_eq h
    rw [magnitude, magnitude, hpoint] at h
    have hfraction := mul_right_cancel₀ (by positivity) h
    rw [div_eq_div_iff (by positivity) (by positivity)] at hfraction
    exact_mod_cast hfraction
  have hlength : n.digits.length = m.digits.length :=
    (length_le hcross.symm).antisymm (length_le hcross)
  rw [hlength] at hcross
  exact digits_eq_of_value n.isDigits m.isDigits hlength
    (Nat.eq_of_mul_eq_mul_right (by positivity) hcross)

theorem value_injective : Function.Injective value := by
  intro n m h
  have hmagnitude : n.magnitude = m.magnitude := by rw [← abs_value, h, abs_value]
  have hnegative : n.negative = m.negative := by
    have hn := n.magnitude_pos
    have hm := m.magnitude_pos
    unfold value at h
    cases hs : n.negative <;> cases ht : m.negative <;> simp [hs, ht] at h ⊢ <;> linarith
  exact Numeral.ext hnegative (digits_eq hmagnitude) (point_eq hmagnitude)

theorem text_injective : Function.Injective text := by
  intro n m h
  apply value_injective
  have hvalue := n.value?_text
  rw [h, value?_text] at hvalue
  exact (Option.some.inj hvalue).symm

end Numeral

/-! ### Literals in argument slots -/

namespace Decimal

variable {d : Decimal}

theorem significant_prefix (d : Decimal) : d.significant.1 <+: Nat.toDigits 10 d.coefficient := by
  rw [← List.reverse_reverse (Nat.toDigits 10 d.coefficient)]
  exact List.reverse_prefix.mpr (List.dropWhile_suffix _)

theorem head_significant (h : 0 < d.coefficient) : d.significant.1.head? ≠ some '0' := by
  obtain ⟨zeros, hzeros⟩ := d.significant_prefix
  have hhead := head_toDigits h
  obtain ⟨c, rest, hc⟩ := List.exists_cons_of_ne_nil (significant_spec h).1
  rw [← hzeros, hc] at hhead
  rw [hc]
  exact hhead

theorem last_significant (d : Decimal) : d.significant.1.getLast? ≠ some '0' := by
  rw [significant, List.getLast?_reverse]
  intro hlast
  have hkept := List.head?_dropWhile_not (· == '0') (Nat.toDigits 10 d.coefficient).reverse
  rw [hlast] at hkept
  exact absurd hkept (by decide)

/-- The digits of a decimal, with a sign. -/
def numeral (d : Decimal) (h : 0 < d.coefficient) (negative : Bool) : Numeral :=
  ⟨negative, d.significant.1, d.significant.2, d.digits_significant, (significant_spec h).1,
    head_significant h, d.last_significant⟩

end Decimal

/-- The decimal that a numeral spells, without its sign. -/
def Numeral.decimal (n : Numeral) : Decimal := ⟨digitsValue n.digits, n.point - n.digits.length⟩

theorem Double.ofDecimal_numeral {d : Decimal} (h : 0 < d.coefficient) (negative : Bool) :
    ofDecimal negative (d.numeral h negative).decimal = ofDecimal negative d := by
  obtain ⟨-, zeros, hvalue, hplace⟩ := Decimal.significant_spec h
  have hdecimal : (d.numeral h negative).decimal =
      ⟨Nat.ofDigitChars 10 d.significant.1 0, d.exponent + zeros⟩ := by
    rw [← hplace]
    rfl
  rw [hdecimal, ← ofDecimal_mul_pow, ← hvalue]

/-- The double that an argument slot shows. Integers below `1e21` are not shown as doubles. -/
def Json.slotDouble? : Json → Option Double
  | .float x => some x
  | .int n => if n.natAbs < Nat.pow 10 21 then none else some (Double.ofInt n)
  | _ => none

theorem lowerArgument_slotDouble {least : Int} {path : Path} {v : Json} {x : Double}
    (h : v.slotDouble? = some x) :
    lowerArgument least path v = pure (.constant (x.text .slot)) := by
  cases v with
  | float y =>
    cases h
    rfl
  | int n =>
    obtain ⟨hlarge, hx⟩ := Option.ite_none_left_eq_some.mp h
    cases hx
    rw [lowerArgument, slotInteger, if_neg hlarge]
  | _ => cases h

/-- The digits of a number in an argument slot are laid out exactly: the text, read as a decimal
literal, denotes the number that the digits spell. It is in plain notation from `1e-6` to below
`1e21`, and has an exponent without padding else. Different signs, digits or places of the point
have different texts. Every finite number other than zero that is shown as a double is shown so, by
the shortest digits that read back as it. -/
theorem number_layout_exact :
    (∀ n : Numeral, Literal.value? n.text = some n.value ∧
      (Literal.isPlain n.text = true ↔ 10 ^ (-6 : Int) ≤ |n.value| ∧ |n.value| < 10 ^ (21 : Int)) ∧
      (Literal.isPlain n.text = false → n.IsScientific)) ∧
    Function.Injective Numeral.text ∧
    ∀ (least : Int) (path : Path) (v : Json) (negative : Bool) (rank : Fin Double.rankCount),
      v.slotDouble? = some (.finite negative rank) → 0 < (rank : Nat) →
        ∃ n : Numeral, n.negative = negative ∧
          (n.digits, n.point) = (Double.shortest rank).significant ∧
          Double.ofDecimal negative n.decimal = .finite negative rank ∧
          lowerArgument least path v = pure (.constant n.text) := by
  refine ⟨fun n => ⟨n.value?_text, n.isPlain_text, n.isScientific⟩, Numeral.text_injective, ?_⟩
  intro least path v negative rank hv hpos
  have hc := Double.coefficient_shortest_pos hpos
  refine ⟨(Double.shortest rank).numeral hc negative, rfl, rfl, ?_, ?_⟩
  · rw [Double.ofDecimal_numeral hc]
    exact Double.ofDecimal_negative (Double.ofDecimal_shortest hpos) negative
  · rw [lowerArgument_slotDouble hv, Double.text, if_neg hpos.ne']
    rfl

/-- The double `-2.5e-8`. -/
def smallNegative : Double := .finite true ⟨4493141015233605448, by decide⟩

theorem smallNegative_layout :
    ∃ n : Numeral, n.text = "-2.5e-8" ∧
      lowerArgument 2 .top (.float smallNegative) = pure (.constant n.text) ∧
      Literal.value? n.text = some n.value ∧ n.IsScientific := by
  obtain ⟨hlayout, -, hslot⟩ := number_layout_exact
  obtain ⟨n, hnegative, hdigits, -, hn⟩ := hslot 2 .top (.float smallNegative) _ _ rfl (by decide)
  have hshortest : (Double.shortest ⟨4493141015233605448, by decide⟩).significant =
      (['2', '5'], -7) := by decide +kernel
  rw [hshortest, Prod.mk.injEq] at hdigits
  obtain ⟨hvalue, -, hscientific⟩ := hlayout n
  have htext : n.text = "-2.5e-8" := by
    rw [Numeral.text, hnegative, hdigits.1, hdigits.2]
    rfl
  refine ⟨n, htext, hn, hvalue, hscientific ?_⟩
  rw [htext]
  decide

end BlockFlow
