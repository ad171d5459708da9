import Mathlib
import BlockFlow.Json.Reader
import BlockFlow.Number.Format
import BlockFlow.Proofs.Number.Decimals

/-! The text of a double reads back as it. -/

namespace BlockFlow

namespace Double

theorem ofRatio_negative {num den : Nat} {rank : Fin rankCount}
    (h : ofRatio false num den = .finite false rank) (negative : Bool) :
    ofRatio negative num den = .finite negative rank := by
  simp only [ofRatio] at h ⊢
  split at h
  · next hr =>
    cases h
    exact dif_pos hr
  · cases h

/-- The sign of a decimal is the sign of the double. -/
theorem ofDecimal_negative {d : Decimal} {rank : Fin rankCount}
    (h : ofDecimal false d = .finite false rank) (negative : Bool) :
    ofDecimal negative d = .finite negative rank := by
  unfold ofDecimal at h ⊢
  split at h
  · cases h
    simp_all [zero]
  split at h
  · cases h
  split at h
  · cases h
    simp_all [zero]
  · rw [if_neg ‹_›, if_neg ‹_›, if_neg ‹_›]
    split at h
    · exact ofRatio_negative h negative
    · exact ofRatio_negative h negative

theorem coefficient_shortest_pos {rank : Fin rankCount} (h : 0 < (rank : Nat)) :
    0 < (shortest rank).coefficient := by
  have hback := ofDecimal_shortest h
  refine Nat.pos_of_ne_zero fun hc => ?_
  rw [ofDecimal, if_pos hc] at hback
  cases hback
  exact h.ne rfl

theorem text_of_eq_zero (negative : Bool) {rank : Fin rankCount} (h : (rank : Nat) = 0) :
    (finite negative rank).text .json = withSign negative "0.0" := by
  rw [text, if_pos h]
  cases negative <;> rfl

theorem text_of_pos (negative : Bool) {rank : Fin rankCount} (h : 0 < (rank : Nat)) :
    (finite negative rank).text .json = withSign negative
      (DoubleFormat.json.layout.text (shortest rank).significant.1
        (shortest rank).significant.2) := if_neg h.ne'

end Double

/-- A run of decimal digits. -/
def Digits (chars : List Char) : Prop := ∀ c ∈ chars, c.isDigit = true

theorem digits_toDigits (n : Nat) : Digits (Nat.toDigits 10 n) := fun _ hc =>
  Nat.isDigit_of_mem_toDigits (by decide) (by decide) hc

theorem digits_replicate (n : Nat) : Digits (List.replicate n '0') := by
  intro c hc
  rw [List.eq_of_mem_replicate hc]
  rfl

theorem Digits.append {xs ys : List Char} (hx : Digits xs) (hy : Digits ys) : Digits (xs ++ ys) :=
  fun c hc => (List.mem_append.mp hc).elim (hx c) (hy c)

theorem Digits.take {xs : List Char} (h : Digits xs) (n : Nat) : Digits (xs.take n) :=
  fun c hc => h c (List.mem_of_mem_take hc)

theorem Digits.drop {xs : List Char} (h : Digits xs) (n : Nat) : Digits (xs.drop n) :=
  fun c hc => h c (List.mem_of_mem_drop hc)

theorem Decimal.digits_significant (d : Decimal) : Digits d.significant.1 := by
  intro c hc
  have hr := (List.dropWhile_sublist _).subset (List.mem_reverse.mp hc)
  exact digits_toDigits d.coefficient c (List.mem_reverse.mp hr)

/-- The significant digits of a decimal, with zeros behind them, are its digits. -/
theorem Decimal.significant_spec {d : Decimal} (h : 0 < d.coefficient) :
    d.significant.1 ≠ [] ∧
      ∃ z : Nat, d.coefficient = Nat.ofDigitChars 10 d.significant.1 0 * 10 ^ z ∧
        d.significant.2 - d.significant.1.length = d.exponent + z := by
  have hsplit : Nat.toDigits 10 d.coefficient = d.significant.1 ++
      ((Nat.toDigits 10 d.coefficient).reverse.takeWhile (· == '0')).reverse := by
    rw [significant, ← List.reverse_append, List.takeWhile_append_dropWhile, List.reverse_reverse]
  generalize hz : ((Nat.toDigits 10 d.coefficient).reverse.takeWhile (· == '0')).reverse = zeros
    at hsplit
  have hzeros : zeros = List.replicate zeros.length '0' := by
    rw [List.eq_replicate_iff]
    refine ⟨rfl, fun c hc => ?_⟩
    rw [← hz, List.mem_reverse] at hc
    simpa using List.mem_takeWhile_imp hc
  have hvalue : d.coefficient = Nat.ofDigitChars 10 d.significant.1 0 * 10 ^ zeros.length := by
    have hc := @Nat.ofDigitChars_ten_toDigits d.coefficient
    rw [hsplit, Nat.ofDigitChars_append, hzeros, Nat.ofDigitChars_replicate_zero] at hc
    rw [Nat.mul_comm]
    simpa using hc.symm
  refine ⟨?_, zeros.length, hvalue, ?_⟩
  · intro hn
    rw [hn, Nat.ofDigitChars_nil, Nat.zero_mul] at hvalue
    exact h.ne' hvalue
  · have hl := congrArg List.length hsplit
    simp only [List.length_append] at hl
    change (digitCount d.coefficient : Int) + d.exponent - _ = _
    rw [digitCount, hl]
    push_cast
    ring

theorem span_append {p : Char → Bool} {xs ys : List Char} (hx : ∀ c ∈ xs, p c = true)
    (hy : ∀ c ∈ ys.head?, p c = false) : (xs ++ ys).span p = (xs, ys) := by
  have ht : ys.takeWhile p = [] ∧ ys.dropWhile p = ys := by
    cases ys <;> simp_all
  rw [List.span_eq_takeWhile_dropWhile, List.takeWhile_append_of_pos hx,
    List.dropWhile_append_of_pos hx, ht.1, ht.2, List.append_nil]

/-- The characters of a sign. -/
def signChars (negative : Bool) : List Char := if negative then ['-'] else []

namespace Json.Reader

theorem digit_ne {c d : Char} (hc : c.isDigit = true) (hd : d.isDigit = false) : c ≠ d := by
  rintro rfl
  rw [hc] at hd
  cases hd

/-- A number with a point or an exponent is read as the decimal that it spells. -/
theorem numberValue_eq (negative : Bool) (whole fraction tail : List Char) (hw : Digits whole)
    (hne : whole ≠ []) (hf : ∀ c ∈ fraction.head?, c = '.') (hfd : Digits (fraction.drop 1))
    (ht : ∀ c ∈ tail.head?, c = 'e') (hft : fraction ≠ [] ∨ tail ≠ []) :
    numberValue (signChars negative ++ (whole ++ fraction ++ tail)) =
      .ok (.float (.ofDecimal negative ⟨Nat.ofDigitChars 10 (whole ++ fraction.drop 1) 0,
        signedDigits (tail.drop 1) - (fraction.drop 1).length⟩)) := by
  obtain ⟨d, ds, rfl⟩ := List.exists_cons_of_ne_nil hne
  have hd : d ≠ '-' := digit_ne (hw d List.mem_cons_self) rfl
  have hneg :
      ((signChars negative ++ (d :: ds ++ fraction ++ tail)).head? == some '-') = negative := by
    cases negative <;> simp [signChars, hd]
  have hunsigned : (if negative then (signChars negative ++ (d :: ds ++ fraction ++ tail)).drop 1
      else signChars negative ++ (d :: ds ++ fraction ++ tail)) = d :: ds ++ fraction ++ tail := by
    cases negative <;> simp [signChars]
  have hmantissa : (d :: ds ++ fraction ++ tail).span (fun c => c != 'e' && c != 'E') =
      (d :: ds ++ fraction, tail) := by
    refine span_append ?_ (by simp +contextual [ht])
    have hall : ∀ c ∈ d :: ds ++ fraction, c.isDigit = true ∨ c = '.' := by
      intro c hc
      rcases List.mem_append.mp hc with hc | hc
      · exact .inl (hw c hc)
      · cases fraction with
        | nil => cases hc
        | cons p ps =>
          rcases List.mem_cons.mp hc with rfl | hc
          · exact .inr (hf _ rfl)
          · exact .inl (hfd c hc)
    intro c hc
    rcases hall c hc with hc | rfl
    · simp [digit_ne hc (d := 'e') rfl, digit_ne hc (d := 'E') rfl]
    · rfl
  have hpoint : (d :: ds ++ fraction).span (· != '.') = (d :: ds, fraction) := by
    refine span_append (fun c hc => ?_) (by simp +contextual [hf])
    simp [digit_ne (hw c hc) (d := '.') rfl]
  have hparts : (fraction.isEmpty && tail.isEmpty) = false := by
    rcases hft with h | h <;> simp [h]
  simp only [numberValue, hneg, hunsigned, hmantissa, hpoint, hparts]
  rfl

theorem signedDigits_exponentText (l : DigitLayout) (e : Int) :
    signedDigits (l.exponentText e).toList = e := by
  have hdigits : Nat.ofDigitChars 10 (padded l.exponentWidth (Nat.toDigits 10 e.natAbs)) 0 =
      e.natAbs := by
    rw [padded, Nat.ofDigitChars_append, Nat.ofDigitChars_replicate_zero, Nat.mul_zero,
      Nat.ofDigitChars_ten_toDigits]
  unfold DigitLayout.exponentText
  split
  · simp only [decimal, String.toList_append, String.toList_ofList]
    refine Eq.trans (congrArg (fun n : Nat => -(n : Int)) hdigits) ?_
    omega
  · simp only [decimal, String.toList_append, String.toList_ofList]
    refine Eq.trans (congrArg (fun n : Nat => (n : Int)) hdigits) ?_
    omega

variable {digits : List Char}

/-- Positional notation is read as the digits with the point where it was. -/
theorem numberValue_positional (negative : Bool) {l : DigitLayout} (hl : l.wholeEnding = ".0")
    (hd : Digits digits) (hne : digits ≠ []) (point : Int) :
    numberValue (signChars negative ++ (l.positional digits point).toList) =
      .ok (.float (.ofDecimal negative ⟨Nat.ofDigitChars 10 digits 0, point - digits.length⟩)) := by
  have hnil : signedDigits [] = 0 := rfl
  match point with
  | .ofNat 0 =>
    have h := numberValue_eq negative ['0'] ('.' :: digits) [] (digits_replicate 1) (by simp)
      (by simp) hd (by simp) (by simp)
    rw [DigitLayout.positional]
    simpa [Nat.ofDigitChars_cons, hnil] using h
  | .negSucc n =>
    have h := numberValue_eq negative ['0'] ('.' :: (DigitLayout.zeros (n + 1) ++ digits)) []
      (digits_replicate 1) (by simp) (by simp) ((digits_replicate _).append hd) (by simp) (by simp)
    have hvalue : Nat.ofDigitChars 10 (DigitLayout.zeros (n + 1) ++ digits) 0 =
        Nat.ofDigitChars 10 digits 0 := by
      rw [DigitLayout.zeros, Nat.ofDigitChars_append, Nat.ofDigitChars_replicate_zero, Nat.mul_zero]
    have hplace : -((DigitLayout.zeros (n + 1) ++ digits).length : Int) =
        Int.negSucc n - digits.length := by
      rw [List.length_append, DigitLayout.zeros, List.length_replicate, Int.negSucc_eq]
      omega
    rw [DigitLayout.positional, ← hplace, ← hvalue]
    simpa [Nat.ofDigitChars_cons, hnil] using h
  | .ofNat (n + 1) =>
    have hpositional : l.positional digits (.ofNat (n + 1)) =
        if digits.length ≤ n + 1 then
          String.ofList (digits ++ DigitLayout.zeros (n + 1 - digits.length)) ++ l.wholeEnding
        else String.ofList (digits.take (n + 1)) ++ "." ++ String.ofList (digits.drop (n + 1)) :=
      rfl
    rw [hpositional]
    split
    · next hle =>
      have h := numberValue_eq negative (digits ++ DigitLayout.zeros (n + 1 - digits.length))
        ['.', '0'] [] (hd.append (digits_replicate _)) (by simp [hne]) (by simp)
        (digits_replicate 1) (by simp) (by simp)
      have hvalue : Nat.ofDigitChars 10
          (digits ++ DigitLayout.zeros (n + 1 - digits.length) ++ ['0']) 0 =
          Nat.ofDigitChars 10 digits 0 * 10 ^ (n + 1 - digits.length + 1) := by
        rw [List.append_assoc, ← List.replicate_one, DigitLayout.zeros,
          List.replicate_append_replicate, Nat.ofDigitChars_append,
          Nat.ofDigitChars_replicate_zero, Nat.mul_comm]
      have hplace : -1 + ((n + 1 - digits.length + 1 : Nat) : Int) =
          Int.ofNat (n + 1) - digits.length := by
        simp only [Int.ofNat_eq_natCast]
        omega
      rw [← hplace, ← Double.ofDecimal_mul_pow, ← hvalue]
      simpa [hl, hnil] using h
    · next hlt =>
      have h := numberValue_eq negative (digits.take (n + 1)) ('.' :: digits.drop (n + 1)) []
        (hd.take _) (by simp [hne]) (by simp) (hd.drop _) (by simp) (by simp)
      have hplace : -((digits.drop (n + 1)).length : Int) = Int.ofNat (n + 1) - digits.length := by
        rw [List.length_drop, Int.ofNat_eq_natCast]
        omega
      rw [← hplace]
      simpa [hnil] using h

theorem numberValue_scientific (negative : Bool) (l : DigitLayout) (hd : Digits digits)
    (hne : digits ≠ []) (point : Int) :
    numberValue (signChars negative ++ (l.scientific digits point).toList) =
      .ok (.float (.ofDecimal negative ⟨Nat.ofDigitChars 10 digits 0, point - digits.length⟩)) := by
  have hexp := signedDigits_exponentText l (point - 1)
  match digits, hne with
  | [d], _ =>
    have h := numberValue_eq negative [d] [] ('e' :: (l.exponentText (point - 1)).toList) hd
      (by simp) (by simp) (by simp [Digits]) (by simp) (by simp)
    simpa [DigitLayout.scientific, hexp] using h
  | d :: e :: rest, _ =>
    have h := numberValue_eq negative [d] ('.' :: e :: rest)
      ('e' :: (l.exponentText (point - 1)).toList) (hd.take 1) (by simp) (by simp) (hd.drop 1)
      (by simp) (by simp)
    have hplace : point - 1 - ((e :: rest).length : Int) =
        point - ((d :: e :: rest).length : Int) := by
      simp only [List.length_cons]
      omega
    rw [← hplace]
    simpa [DigitLayout.scientific, hexp] using h

theorem numberValue_layout (negative : Bool) {l : DigitLayout} (hl : l.wholeEnding = ".0")
    (hd : Digits digits) (hne : digits ≠ []) (point : Int) :
    numberValue (signChars negative ++ (l.text digits point).toList) =
      .ok (.float (.ofDecimal negative ⟨Nat.ofDigitChars 10 digits 0, point - digits.length⟩)) := by
  unfold DigitLayout.text
  split
  · exact numberValue_positional negative hl hd hne point
  · exact numberValue_scientific negative l hd hne point

/-- A finite double reads back from its text. -/
theorem numberValue_text (negative : Bool) (rank : Fin Double.rankCount) :
    numberValue ((Double.finite negative rank).text .json).toList =
      .ok (.float (.finite negative rank)) := by
  have hsign (text : String) : (Double.withSign negative text).toList =
      signChars negative ++ text.toList := by
    cases negative <;> simp [Double.withSign, signChars]
  rcases Nat.eq_zero_or_pos rank with h0 | hpos
  · have hr : rank = ⟨0, by decide⟩ := Fin.ext h0
    rw [Double.text_of_eq_zero negative h0, hr]
    cases negative <;> rfl
  have htext := Double.text_of_pos negative hpos
  have hback := Double.ofDecimal_negative (Double.ofDecimal_shortest hpos) negative
  have hc := Double.coefficient_shortest_pos hpos
  generalize Double.shortest rank = d at htext hback hc
  obtain ⟨hne, z, hvalue, hplace⟩ := Decimal.significant_spec hc
  rw [htext, hsign, numberValue_layout negative rfl d.digits_significant hne, hplace,
    ← Double.ofDecimal_mul_pow, ← hvalue, hback]

end Json.Reader

end BlockFlow
