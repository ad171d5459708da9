import Mathlib
import BlockFlow.Proofs.Number.Texts

/-! Decimal literals and the numbers that they denote exactly. -/

namespace BlockFlow

/-! ### Runs of digits -/

/-- The number that digits spell. -/
def digitsValue (digits : List Char) : Nat := Nat.ofDigitChars 10 digits 0

theorem digitsValue_append (xs ys : List Char) :
    digitsValue (xs ++ ys) = digitsValue xs * 10 ^ ys.length + digitsValue ys := by
  rw [digitsValue, Nat.ofDigitChars_append, Nat.ofDigitChars_eq_ofDigitChars_zero, Nat.mul_comm]
  rfl

theorem digitsValue_zeros (n : Nat) : digitsValue (DigitLayout.zeros n) = 0 := by
  rw [digitsValue, DigitLayout.zeros, Nat.ofDigitChars_replicate_zero, Nat.mul_zero]

theorem length_zeros (n : Nat) : (DigitLayout.zeros n).length = n := List.length_replicate

theorem digitsValue_toDigits (n : Nat) : digitsValue (Nat.toDigits 10 n) = n :=
  Nat.ofDigitChars_ten_toDigits

theorem digitsValue_singleton (c : Char) : digitsValue [c] = c.toNat - 48 := by
  simp [digitsValue, Nat.ofDigitChars_cons]

theorem toNat_of_isDigit {c : Char} (h : c.isDigit = true) : 48 ≤ c.toNat ∧ c.toNat ≤ 57 :=
  Char.isDigit_iff_toNat.mp h

theorem digit_eq {c d : Char} (hc : c.isDigit = true) (hd : d.isDigit = true)
    (h : digitsValue [c] = digitsValue [d]) : c = d := by
  rw [digitsValue_singleton, digitsValue_singleton] at h
  have hc := toNat_of_isDigit hc
  have hd := toNat_of_isDigit hd
  exact Char.toNat_inj.mp (by omega)

theorem digitsValue_lt {digits : List Char} (h : Digits digits) :
    digitsValue digits < 10 ^ digits.length := by
  induction digits using List.reverseRecOn with
  | nil => simp [digitsValue]
  | append_singleton digits c ih =>
    have hc := toNat_of_isDigit (h c (by simp))
    have hdigits := ih fun d hd => h d (List.mem_append_left _ hd)
    rw [digitsValue_append, digitsValue_singleton, List.length_append, List.length_singleton,
      pow_succ]
    omega

/-- Without a zero in front, there are no more digits than the number needs. -/
theorem le_digitsValue {d : Char} {rest : List Char} (h : Digits (d :: rest)) (hd : d ≠ '0') :
    10 ^ rest.length ≤ digitsValue (d :: rest) := by
  have hpos : 0 < digitsValue [d] := by
    refine Nat.pos_of_ne_zero fun hzero => hd ?_
    exact digit_eq (h d List.mem_cons_self) rfl (hzero.trans rfl)
  rw [← List.singleton_append, digitsValue_append]
  exact (Nat.le_mul_of_pos_left _ hpos).trans (Nat.le_add_right _ _)

theorem not_dvd_digitsValue {digits : List Char} {c : Char} (h : Digits (digits ++ [c]))
    (hc : c ≠ '0') : ¬ 10 ∣ digitsValue (digits ++ [c]) := by
  have hdigit := h c (by simp)
  have hrange := toNat_of_isDigit hdigit
  intro hdvd
  rw [digitsValue_append, List.length_singleton, pow_one, Nat.dvd_add_right ⟨_, Nat.mul_comm _ _⟩,
    digitsValue_singleton] at hdvd
  have hzero : digitsValue [c] = digitsValue ['0'] := by
    rw [digitsValue_singleton, digitsValue_singleton]
    change _ = 0
    omega
  exact hc (digit_eq hdigit rfl hzero)

theorem digits_eq_of_value {xs ys : List Char} (hx : Digits xs) (hy : Digits ys)
    (hlength : xs.length = ys.length) (hvalue : digitsValue xs = digitsValue ys) : xs = ys := by
  induction xs using List.reverseRecOn generalizing ys with
  | nil => exact (List.length_eq_zero_iff.mp hlength.symm).symm
  | append_singleton xs c ih =>
    obtain rfl | ⟨ys, d, rfl⟩ := ys.eq_nil_or_concat'
    · simp at hlength
    have hc := toNat_of_isDigit (hx c (by simp))
    have hd := toNat_of_isDigit (hy d (by simp))
    simp only [List.length_append, List.length_singleton, Nat.add_right_cancel_iff] at hlength
    simp only [digitsValue_append, digitsValue_singleton, List.length_singleton, pow_one] at hvalue
    obtain rfl : c = d := Char.toNat_inj.mp (by omega)
    rw [ih (fun e he => hx e (List.mem_append_left _ he))
      (fun e he => hy e (List.mem_append_left _ he)) hlength (by omega)]

theorem head_toDigits {n : Nat} (h : 0 < n) : (Nat.toDigits 10 n).head? ≠ some '0' := by
  intro hhead
  obtain ⟨rest, hrest⟩ := List.head?_eq_some_iff.mp hhead
  have hvalue : digitsValue rest = n := by
    have hdigits := digitsValue_toDigits n
    rw [hrest, ← List.singleton_append, digitsValue_append] at hdigits
    simpa [digitsValue_singleton] using hdigits
  have hlt : n < 10 ^ rest.length := by
    rw [← hvalue]
    exact digitsValue_lt fun c hc => digits_toDigits n c (hrest ▸ List.mem_cons_of_mem _ hc)
  have hpos : 0 < rest.length := by
    refine List.length_pos_iff.mpr fun hnil => h.ne ?_
    rw [← hvalue, hnil]
    rfl
  have hle := (Nat.length_toDigits_le_iff (by decide) hpos).mpr hlt
  rw [hrest, List.length_cons] at hle
  omega

/-! ### Decimal literals -/

namespace Literal

/-- A run of at least one digit. -/
def natural? (chars : List Char) : Option Nat :=
  if chars ≠ [] ∧ chars.all Char.isDigit = true then some (digitsValue chars) else none

/-- Digits, and perhaps a point with digits behind it. -/
def mantissa? (chars : List Char) : Option ℚ :=
  match chars.span (· != '.') with
  | (whole, []) => (natural? whole).map fun (w : Nat) => (w : ℚ)
  | (whole, _ :: fraction) =>
    (natural? whole).bind fun (w : Nat) =>
      (natural? fraction).map fun (f : Nat) => (w + f / 10 ^ fraction.length : ℚ)

/-- Nothing, or the letter `e` and an integer. -/
def exponent? : List Char → Option Int
  | [] => some 0
  | 'e' :: '+' :: digits => (natural? digits).map fun (e : Nat) => (e : Int)
  | 'e' :: '-' :: digits => (natural? digits).map fun (e : Nat) => -(e : Int)
  | 'e' :: digits => (natural? digits).map fun (e : Nat) => (e : Int)
  | _ => none

/-- The number that an unsigned literal denotes. -/
def magnitude? (chars : List Char) : Option ℚ :=
  let (mantissa, tail) := chars.span (· != 'e')
  (mantissa? mantissa).bind fun m => (exponent? tail).map fun e => m * 10 ^ e

/-- The number that a decimal literal denotes. -/
def value? (text : String) : Option ℚ :=
  match text.toList with
  | '-' :: chars => (magnitude? chars).map (-·)
  | chars => magnitude? chars

/-- Plain notation has no exponent. -/
def isPlain (text : String) : Bool := !text.toList.contains 'e'

end Literal

/-- The parts of an unsigned decimal literal. -/
structure Literal where
  whole : List Char
  fraction : List Char
  exponent : Option Int
  whole_digits : Digits whole
  whole_ne : whole ≠ []
  fraction_digits : Digits fraction

namespace Literal

def pointChars (fraction : List Char) : List Char :=
  if fraction = [] then [] else '.' :: fraction

def exponentChars : Option Int → List Char
  | none => []
  | some e => 'e' :: (if e < 0 then '-' else '+') :: Nat.toDigits 10 e.natAbs

def chars (x : Literal) : List Char := x.whole ++ pointChars x.fraction ++ exponentChars x.exponent

def value (x : Literal) : ℚ :=
  digitsValue (x.whole ++ x.fraction) / 10 ^ x.fraction.length * 10 ^ x.exponent.getD 0

theorem natural?_digits {chars : List Char} (h : Digits chars) (hne : chars ≠ []) :
    natural? chars = some (digitsValue chars) := if_pos ⟨hne, List.all_eq_true.mpr h⟩

theorem exponent?_exponentChars (exponent : Option Int) :
    exponent? (exponentChars exponent) = some (exponent.getD 0) := by
  cases exponent with
  | none => rfl
  | some e =>
    have hdigits := natural?_digits (digits_toDigits e.natAbs) Nat.toDigits_ne_nil
    rw [digitsValue_toDigits] at hdigits
    rw [exponentChars]
    split <;>
    · rw [exponent?, hdigits]
      simp only [Option.map_some, Option.getD_some, Option.some.injEq]
      omega

variable (x : Literal)

theorem mantissa?_chars : mantissa? (x.whole ++ pointChars x.fraction) =
    some (digitsValue (x.whole ++ x.fraction) / 10 ^ x.fraction.length : ℚ) := by
  have hspan : (x.whole ++ pointChars x.fraction).span (· != '.') =
      (x.whole, pointChars x.fraction) := by
    refine span_append (fun c hc => ?_) (by unfold pointChars; split <;> simp)
    simp [Json.Reader.digit_ne (x.whole_digits c hc) (d := '.') rfl]
  have hwhole := natural?_digits x.whole_digits x.whole_ne
  rw [mantissa?, hspan]
  by_cases hf : x.fraction = []
  · simp [pointChars, hf, hwhole]
  · rw [pointChars, if_neg hf]
    simp only [hwhole, natural?_digits x.fraction_digits hf, Option.bind_some, Option.map_some,
      digitsValue_append]
    push_cast
    field_simp

theorem not_mem_mantissa : 'e' ∉ x.whole ++ pointChars x.fraction := by
  intro he
  rcases List.mem_append.mp he with he | he
  · exact absurd (x.whole_digits _ he) (by decide)
  · unfold pointChars at he
    split at he
    · cases he
    · rcases List.mem_cons.mp he with he | he
      · exact absurd he (by decide)
      · exact absurd (x.fraction_digits _ he) (by decide)

theorem magnitude?_chars : magnitude? x.chars = some x.value := by
  have hspan : x.chars.span (· != 'e') =
      (x.whole ++ pointChars x.fraction, exponentChars x.exponent) := by
    refine span_append (fun c hc => ?_) (by cases x.exponent <;> simp [exponentChars])
    simp only [bne_iff_ne, ne_eq]
    rintro rfl
    exact x.not_mem_mantissa hc
  rw [magnitude?, hspan]
  simp only [mantissa?_chars, exponent?_exponentChars, Option.bind_some, Option.map_some]
  rfl

theorem value?_chars (negative : Bool) : value? (String.ofList (signChars negative ++ x.chars)) =
    some (if negative then -x.value else x.value) := by
  have hvalue := x.magnitude?_chars
  cases negative with
  | true => simp [value?, signChars, hvalue]
  | false =>
    simp only [value?, signChars, String.toList_ofList]
    split
    · next chars hchars =>
      -- a literal begins with a digit
      obtain ⟨c, rest, hwhole⟩ := List.exists_cons_of_ne_nil x.whole_ne
      have hhead : c = '-' := by
        simp [Literal.chars, hwhole] at hchars
        exact hchars.1
      exact absurd (x.whole_digits c (hwhole ▸ List.mem_cons_self)) (by rw [hhead]; decide)
    · simpa using hvalue

theorem isPlain_chars (negative : Bool) :
    isPlain (String.ofList (signChars negative ++ x.chars)) = x.exponent.isNone := by
  have hsign : 'e' ∉ signChars negative := by cases negative <;> decide
  have hexponent : 'e' ∈ exponentChars x.exponent ↔ x.exponent ≠ none := by
    cases x.exponent <;> simp [exponentChars]
  have hmantissa := x.not_mem_mantissa
  rw [List.mem_append, not_or] at hmantissa
  rw [isPlain, String.toList_ofList, Bool.eq_iff_iff]
  simp [chars, hsign, hmantissa, hexponent]

end Literal

end BlockFlow
