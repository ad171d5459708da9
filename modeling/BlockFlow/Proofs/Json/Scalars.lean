import Mathlib
import BlockFlow.Canonical
import BlockFlow.Proofs.Number.Texts

/-! Words, numbers and quoted texts can be read back. -/

namespace BlockFlow

namespace Json

/-- A character of an integer. -/
def isIntegerChar (c : Char) : Bool := c.isDigit || c == '-'

/-- A character of a finite number. -/
def isNumberChar (c : Char) : Bool := isIntegerChar c || c == '.' || c == 'e' || c == '+'

theorem isNumberChar_of_isDigit {c : Char} (h : c.isDigit = true) : isNumberChar c = true := by
  simp [isNumberChar, isIntegerChar, h]

theorem isIntegerChar_toString (n : Int) : ∀ c ∈ (toString n).toList, isIntegerChar c = true := by
  have hrepr (m : Nat) : ∀ c ∈ m.repr.toList, isIntegerChar c = true := by
    intro c hc
    rw [Nat.repr_eq_ofList_toDigits, String.toList_ofList] at hc
    simp [isIntegerChar, digits_toDigits m c hc]
  rw [Int.toString_eq_repr, Int.repr_eq_if]
  split
  · exact hrepr _
  · intro c hc
    rw [String.toList_append, List.mem_append] at hc
    rcases hc with hc | hc
    · obtain rfl : c = '-' := by simpa using hc
      rfl
    · exact hrepr _ c hc

/-- The characters of a text make a number, and not all of them an integer. -/
def IsFractional (text : String) : Prop :=
  (∀ c ∈ text.toList, isNumberChar c = true) ∧ ∃ c ∈ text.toList, isIntegerChar c = false

section

variable {l : DigitLayout} {digits : List Char}

theorem isFractional_positional (hl : l.wholeEnding = ".0")
    (hd : ∀ c ∈ digits, isNumberChar c = true) (point : Int) :
    IsFractional (l.positional digits point) := by
  have hzeros (n : Nat) : ∀ c ∈ DigitLayout.zeros n, isNumberChar c = true := fun c hc =>
    isNumberChar_of_isDigit (digits_replicate n c hc)
  have hzero : isNumberChar '0' = true := by decide
  have hpoint : isNumberChar '.' = true ∧ isIntegerChar '.' = false := by decide
  unfold DigitLayout.positional
  split
  · exact ⟨by simpa [hzero, hpoint.1] using hd, '.', by simp, hpoint.2⟩
  · refine ⟨?_, '.', by simp, hpoint.2⟩
    simpa [or_imp, forall_and, hzero, hpoint.1] using ⟨hzeros _, hd⟩
  · split
    · refine ⟨?_, '.', by simp [hl], hpoint.2⟩
      simpa [or_imp, forall_and, hl, hzero, hpoint.1] using ⟨hd, hzeros _⟩
    · refine ⟨?_, '.', by simp, hpoint.2⟩
      intro c hc
      simp only [String.toList_append, String.toList_ofList, List.mem_append] at hc
      rcases hc with (hc | hc) | hc
      · exact hd c (List.mem_of_mem_take hc)
      · simp_all
      · exact hd c (List.mem_of_mem_drop hc)

theorem isFractional_scientific (hd : ∀ c ∈ digits, isNumberChar c = true) (point : Int) :
    IsFractional (l.scientific digits point) := by
  have hpoint : isNumberChar '.' = true := by decide
  have hmark : isNumberChar 'e' = true ∧ isIntegerChar 'e' = false := by decide
  have hexp : ∀ c ∈ (l.exponentText (point - 1)).toList, isNumberChar c = true := by
    intro c hc
    rw [DigitLayout.exponentText, String.toList_append, List.mem_append] at hc
    rcases hc with hc | hc
    · revert hc
      split <;> simp +contextual [isNumberChar, isIntegerChar]
    · rw [decimal, String.toList_ofList] at hc
      exact isNumberChar_of_isDigit ((digits_replicate _).append (digits_toDigits _) c hc)
  unfold DigitLayout.scientific
  split
  · refine ⟨?_, 'e', by simp, hmark.2⟩
    simp only [List.forall_mem_cons] at hd
    simpa [or_imp, forall_and, hpoint, hmark.1] using ⟨hd.1, hd.2.1, hd.2.2, hexp⟩
  · refine ⟨?_, 'e', by simp, hmark.2⟩
    simpa [or_imp, forall_and, hmark.1] using ⟨hd, hexp⟩

end

theorem isFractional_text (negative : Bool) (rank : Fin Double.rankCount) :
    IsFractional ((Double.finite negative rank).text .json) := by
  have hsigned {text : String} (h : IsFractional text) :
      IsFractional (Double.withSign negative text) := by
    obtain ⟨hall, c, hc, hn⟩ := h
    unfold Double.withSign
    split
    · exact ⟨by simpa [show isNumberChar '-' = true by decide] using hall, c, by simp [hc], hn⟩
    · exact ⟨hall, c, hc, hn⟩
  rcases Nat.eq_zero_or_pos rank with h0 | hpos
  · rw [Double.text_of_eq_zero negative h0]
    exact hsigned ⟨List.all_eq_true.mp (by decide), '.', by decide, by decide⟩
  · rw [Double.text_of_pos negative hpos]
    have hd : ∀ c ∈ (Double.shortest rank).significant.1, isNumberChar c = true := fun c hc =>
      isNumberChar_of_isDigit (Decimal.digits_significant _ c hc)
    refine hsigned ?_
    unfold DigitLayout.text
    split
    · exact isFractional_positional rfl hd _
    · exact isFractional_scientific hd _

/-- A word or a number. -/
def isScalar : Json → Bool
  | null | bool _ | int _ | float _ => true
  | _ => false

/-- The words of scalars that are no finite numbers. -/
def words : List (String × Json) :=
  [("null", .null), ("true", .bool true), ("false", .bool false), ("NaN", .float .nan),
    ("Infinity", .float (.infinite false)), ("-Infinity", .float (.infinite true))]

/-- The scalar that a text spells. -/
def scalarOfText (text : String) : Option Json :=
  if text.toList.all isIntegerChar then text.toInt?.map .int
  else if text.toList.all isNumberChar then (Reader.numberValue text.toList).toOption
  else words.lookup text

theorem scalarOfText_stableText {v : Json} (h : v.isScalar = true) :
    scalarOfText v.stableText = some v := by
  have hword {text : String} {v : Json} (hi : text.toList.all isIntegerChar = false)
      (hn : text.toList.all isNumberChar = false) (hw : words.lookup text = some v) :
      scalarOfText text = some v := by
    rw [scalarOfText, hi, hn]
    exact hw
  match v, h with
  | null, _ => exact hword (by decide) (by decide) rfl
  | bool true, _ => exact hword (by decide) (by decide) rfl
  | bool false, _ => exact hword (by decide) (by decide) rfl
  | float .nan, _ => exact hword (by decide) (by decide) rfl
  | float (.infinite false), _ => exact hword (by decide) (by decide) rfl
  | float (.infinite true), _ => exact hword (by decide) (by decide) rfl
  | int n, _ =>
    change scalarOfText (toString n) = _
    rw [scalarOfText, if_pos (List.all_eq_true.mpr (isIntegerChar_toString n)),
      Int.toString_eq_repr, Int.toInt?_repr]
    rfl
  | float (.finite negative rank), _ =>
    obtain ⟨hall, c, hc, hn⟩ := isFractional_text negative rank
    have hi : ¬ ((Double.finite negative rank).text .json).toList.all isIntegerChar = true := by
      intro h
      rw [List.all_eq_true.mp h c hc] at hn
      cases hn
    change scalarOfText ((Double.finite negative rank).text .json) = _
    rw [scalarOfText, if_neg hi, if_pos (List.all_eq_true.mpr hall), Reader.numberValue_text]
    rfl

/-- The characters that can follow a value. -/
def isDelimiter (c : Char) : Bool := c == ',' || c == ']' || c == '\x7d'

/-- The characters that can begin a value that is no scalar. -/
def isOpening (c : Char) : Bool := c == '"' || c == '[' || c == '\x7b'

theorem not_isNumberChar {c : Char} (h : isDelimiter c = true ∨ isOpening c = true) :
    isNumberChar c = false := by
  simp only [isDelimiter, isOpening, Bool.or_eq_true, beq_iff_eq] at h
  rcases h with ((rfl | rfl) | rfl) | ((rfl | rfl) | rfl) <;> decide

/-- No character of a scalar could end a value or begin another. -/
theorem scalar_chars {v : Json} (h : v.isScalar = true) :
    v.stableText.toList ≠ [] ∧
      ∀ c ∈ v.stableText.toList, isDelimiter c = false ∧ isOpening c = false := by
  have hword {text : String}
      (ht : text.toList.all (fun c => !isDelimiter c && !isOpening c) = true) :
      ∀ c ∈ text.toList, isDelimiter c = false ∧ isOpening c = false := by
    simpa using ht
  have hnumber {text : String} (hn : ∀ c ∈ text.toList, isNumberChar c = true) :
      ∀ c ∈ text.toList, isDelimiter c = false ∧ isOpening c = false := by
    intro c hc
    by_contra hd
    have hn' := not_isNumberChar (c := c) (by
      simp only [Bool.eq_false_iff] at hd
      tauto)
    rw [hn c hc] at hn'
    cases hn'
  match v, h with
  | null, _ | bool true, _ | bool false, _ | float .nan, _ | float (.infinite false), _
  | float (.infinite true), _ => exact ⟨by decide, hword (by decide)⟩
  | int n, _ =>
    refine ⟨?_, hnumber fun c hc => ?_⟩
    · change (toString n).toList ≠ []
      rw [Int.toString_eq_repr, Int.repr_eq_if]
      split <;> simp [Nat.repr_eq_ofList_toDigits, Nat.toDigits_ne_nil]
    · simp [isNumberChar, isIntegerChar_toString n c hc]
  | float (.finite negative rank), _ =>
    obtain ⟨hall, c, hc, -⟩ := isFractional_text negative rank
    exact ⟨List.ne_nil_of_mem hc, hnumber hall⟩

/-- The character that a quoted text begins with, and what follows. -/
def unescape : List Char → Option (Char × List Char)
  | [] => none
  | c :: rest =>
    if c = '\\' then
      match rest with
      | [] => none
      | e :: rest =>
        if e = 'u' then
          let unit := (rest.take 4).foldl (fun n x => 16 * n + (hexValue? x).getD 0) 0
          some (Char.ofNat unit, rest.drop 4)
        else (Reader.Quote.letter? e).map (·, rest)
    else some (c, rest)

theorem unescape_unitEscape {n : Nat} (h : n < 32) (rest : List Char) :
    unescape (unitEscape n ++ rest) = some (Char.ofNat n, rest) := by
  interval_cases n <;> rfl

theorem escape_cases (c : Char) :
    (∃ e, Reader.Quote.letter? e = some c ∧ e ≠ 'u' ∧ escape false c = ['\\', e]) ∨
      c.toNat < 32 ∧ escape false c = unitEscape c.toNat ∨
      c ≠ '"' ∧ c ≠ '\\' ∧ escape false c = [c] := by
  by_cases hquote : c = '"'
  · exact .inl ⟨'"', by subst c; decide⟩
  by_cases hslash : c = '\\'
  · exact .inl ⟨'\\', by subst c; decide⟩
  by_cases hline : c = '\n'
  · exact .inl ⟨'n', by subst c; decide⟩
  by_cases hreturn : c = '\r'
  · exact .inl ⟨'r', by subst c; decide⟩
  by_cases htab : c = '\t'
  · exact .inl ⟨'t', by subst c; decide⟩
  by_cases hback : c = '\x08'
  · exact .inl ⟨'b', by subst c; decide⟩
  by_cases hfeed : c = '\x0c'
  · exact .inl ⟨'f', by subst c; decide⟩
  by_cases hcontrol : c.toNat < 32
  · exact .inr (.inl ⟨hcontrol, by simp [escape, *]⟩)
  · exact .inr (.inr ⟨hquote, hslash, by simp [escape, *]⟩)

theorem unescape_escape (c : Char) (rest : List Char) :
    unescape (escape false c ++ rest) = some (c, rest) := by
  rcases escape_cases c with ⟨e, he, hu, h⟩ | ⟨hc, h⟩ | ⟨_, hs, h⟩
  · simp [h, unescape, hu, he]
  · rw [h, unescape_unitEscape hc, Char.ofNat_toNat]
  · simp [h, unescape, hs]

theorem escape_ne_quote (c : Char) (rest t : List Char) : escape false c ++ rest ≠ '"' :: t := by
  rcases escape_cases c with ⟨e, he, hu, h⟩ | ⟨hc, h⟩ | ⟨hq, hs, h⟩
  · simp [h]
  · simp [h, unitEscape]
  · simp [h, hq]

/-- A quoted text tells its characters and where it ends. -/
theorem escaped_inj {xs ys r s : List Char}
    (h : xs.flatMap (escape false) ++ '"' :: r = ys.flatMap (escape false) ++ '"' :: s) :
    xs = ys ∧ r = s := by
  induction xs generalizing ys with
  | nil =>
    cases ys with
    | nil => simpa using h
    | cons y ys =>
      simp only [List.flatMap_cons, List.append_assoc] at h
      exact (escape_ne_quote _ _ _ h.symm).elim
  | cons x xs ih =>
    cases ys with
    | nil =>
      simp only [List.flatMap_cons, List.append_assoc] at h
      exact (escape_ne_quote _ _ _ h).elim
    | cons y ys =>
      simp only [List.flatMap_cons, List.append_assoc] at h
      have hu := congrArg unescape h
      rw [unescape_escape, unescape_escape, Option.some.injEq, Prod.mk.injEq] at hu
      obtain ⟨rfl, hrest⟩ := hu
      obtain ⟨rfl, rfl⟩ := ih hrest
      exact ⟨rfl, rfl⟩

theorem quoted_toList (t : String) :
    (quoted false t).toList = '"' :: (t.toList.flatMap (escape false) ++ ['"']) := by
  simp [quoted]

theorem quoted_inj {a b : String} {r s : List Char}
    (h : (quoted false a).toList ++ r = (quoted false b).toList ++ s) : a = b ∧ r = s := by
  simp only [quoted_toList, List.cons_append, List.append_assoc, List.cons.injEq, true_and] at h
  obtain ⟨ht, hr⟩ := escaped_inj h
  exact ⟨String.toList_inj.mp ht, hr⟩

end Json

end BlockFlow
