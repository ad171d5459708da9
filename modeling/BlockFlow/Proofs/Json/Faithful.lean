import Mathlib
import BlockFlow.Proofs.Json.Reordering
import BlockFlow.Proofs.Json.Scalars
import BlockFlow.Proofs.Json.StableTexts

/-! A stable text tells its value, up to the order of keys. -/

namespace BlockFlow

namespace Json

/-! ### Reading a list of parts -/

/-- What can follow a value: nothing, or a delimiter. -/
def EndsValue (rest : List Char) : Prop := ∀ c ∈ rest.head?, isDelimiter c = true

/-- Written parts behind another one, and the bracket behind them. -/
def furtherParts (bracket : Char) : List (List Char) → List Char
  | [] => [bracket]
  | part :: rest => ',' :: (part ++ furtherParts bracket rest)

/-- Written parts and the bracket behind them. -/
def parts (bracket : Char) : List (List Char) → List Char
  | [] => [bracket]
  | part :: rest => part ++ furtherParts bracket rest

theorem commaSeparated_toList (bracket : Char) (texts : List String) :
    (commaSeparated texts).toList ++ [bracket] = parts bracket (texts.map String.toList) := by
  rw [commaSeparated, String.toList_intercalate]
  generalize texts.map String.toList = written
  have hcomma : ",".toList = [','] := rfl
  rw [hcomma]
  cases written with
  | nil => rfl
  | cons t rest =>
    induction rest generalizing t with
    | nil => simp [parts, furtherParts]
    | cons u rest ih =>
      rw [List.intercalate_cons_cons, List.append_assoc, ih u]
      simp [parts, furtherParts]

section

variable {α β : Type} {write : α → List Char} {value : α → β} {bracket : Char}

/-- Wherever the writing of `a` stands before the end of a value, it tells the value of `a`. -/
def Tells (write : α → List Char) (value : α → β) (a : α) : Prop :=
  ∀ b r s, EndsValue r → EndsValue s → write a ++ r = write b ++ s → value a = value b ∧ r = s

theorem endsValue_furtherParts (hb : isDelimiter bracket = true) (texts : List (List Char))
    (r : List Char) : EndsValue (furtherParts bracket texts ++ r) := by
  cases texts with
  | nil => simpa [EndsValue, furtherParts] using hb
  | cons t texts => simp [EndsValue, furtherParts, isDelimiter]

theorem furtherParts_inj (hb : isDelimiter bracket = true) (hc : bracket ≠ ',') {xs ys : List α}
    (hx : ∀ a ∈ xs, Tells write value a) {r s : List Char}
    (h : furtherParts bracket (xs.map write) ++ r = furtherParts bracket (ys.map write) ++ s) :
    xs.map value = ys.map value ∧ r = s := by
  induction xs generalizing ys with
  | nil =>
    cases ys with
    | nil => simpa [furtherParts] using h
    | cons y ys => simp [furtherParts, hc] at h
  | cons x xs ih =>
    cases ys with
    | nil => simp [furtherParts, hc.symm] at h
    | cons y ys =>
      simp only [List.map_cons, furtherParts, List.cons_append, List.append_assoc,
        List.cons.injEq, true_and] at h
      obtain ⟨hv, hrest⟩ := hx x List.mem_cons_self y _ _ (endsValue_furtherParts hb _ _)
        (endsValue_furtherParts hb _ _) h
      obtain ⟨hvs, hr⟩ := ih (fun a ha => hx a (List.mem_cons_of_mem _ ha)) hrest
      exact ⟨by rw [List.map_cons, List.map_cons, hv, hvs], hr⟩

/-- Written parts tell the values of the parts and where they end. -/
theorem parts_inj (hb : isDelimiter bracket = true) (hc : bracket ≠ ',')
    (hw : ∀ a t u, write a ++ t ≠ bracket :: u) {xs ys : List α}
    (hx : ∀ a ∈ xs, Tells write value a) {r s : List Char}
    (h : parts bracket (xs.map write) ++ r = parts bracket (ys.map write) ++ s) :
    xs.map value = ys.map value ∧ r = s := by
  cases xs with
  | nil =>
    cases ys with
    | nil => simpa [parts] using h
    | cons y ys =>
      simp only [List.map_nil, List.map_cons, parts, List.append_assoc] at h
      exact (hw _ _ _ h.symm).elim
  | cons x xs =>
    cases ys with
    | nil =>
      simp only [List.map_nil, List.map_cons, parts, List.append_assoc] at h
      exact (hw _ _ _ h).elim
    | cons y ys =>
      simp only [List.map_cons, parts, List.append_assoc] at h
      obtain ⟨hv, hrest⟩ := hx x List.mem_cons_self y _ _ (endsValue_furtherParts hb _ _)
        (endsValue_furtherParts hb _ _) h
      obtain ⟨hvs, hr⟩ := furtherParts_inj hb hc
        (fun a ha => hx a (List.mem_cons_of_mem _ ha)) hrest
      exact ⟨by rw [List.map_cons, List.map_cons, hv, hvs], hr⟩

end

/-! ### Values -/

/-- The characters of a value. -/
def chars (v : Json) : List Char := v.stableText.toList

/-- The characters of a field. -/
def fieldChars (field : String × Json) : List Char :=
  (quoted false field.1).toList ++ ':' :: field.2.chars

theorem chars_arr (items : List Json) : (arr items).chars = '[' :: parts ']' (items.map chars) := by
  rw [chars, stableText_arr, String.toList_append, String.toList_append, List.append_assoc]
  have h := commaSeparated_toList ']' (items.map stableText)
  rw [List.map_map] at h
  exact congrArg (List.cons '[') h

theorem chars_obj (fields : List (String × Json)) :
    (obj fields).chars = '\x7b' :: parts '\x7d' ((sortFields fields).map fieldChars) := by
  rw [chars, stableText_obj, String.toList_append, String.toList_append, List.append_assoc,
    sortFields_map, List.map_map]
  have h := commaSeparated_toList '\x7d' ((sortFields fields).map
    (fieldText ∘ fun field => (field.1, field.2.stableText)))
  rw [List.map_map] at h
  have hfield : String.toList ∘ fieldText ∘ (fun field : String × Json =>
      (field.1, field.2.stableText)) = fieldChars := by
    funext field
    simp [fieldText, fieldChars, chars]
  rw [hfield] at h
  exact congrArg (List.cons '\x7b') h

/-- The character that a value begins with, unless it is a scalar. -/
def lead : Json → Option Char
  | str _ => some '"'
  | arr _ => some '['
  | obj _ => some '\x7b'
  | _ => none

theorem chars_lead (v : Json) :
    (∃ c t, v.lead = some c ∧ isOpening c = true ∧ v.chars = c :: t) ∨
      v.lead = none ∧ v.isScalar = true := by
  cases v with
  | str t => exact .inl ⟨'"', _, rfl, by decide, quoted_toList t⟩
  | arr items => exact .inl ⟨'[', _, rfl, by decide, chars_arr items⟩
  | obj fields => exact .inl ⟨'\x7b', _, rfl, by decide, chars_obj fields⟩
  | _ => exact .inr ⟨rfl, rfl⟩

/-- Values that begin alike are both scalars, or of one kind. -/
theorem lead_eq {v w : Json} {r s : List Char} (h : v.chars ++ r = w.chars ++ s) :
    v.lead = w.lead := by
  have scalar_start {a : Json} (ha : a.isScalar = true) {c : Char} (hc : isOpening c = true)
      (t u : List Char) : a.chars ++ t ≠ c :: u := by
    obtain ⟨hne, hall⟩ := scalar_chars ha
    obtain ⟨d, ds, hd⟩ := List.exists_cons_of_ne_nil hne
    intro he
    rw [chars, hd, List.cons_append, List.cons.injEq] at he
    have ho := (hall d (hd ▸ List.mem_cons_self)).2
    rw [he.1, hc] at ho
    cases ho
  rcases chars_lead v with ⟨c, t, hv, hc, ht⟩ | ⟨hv, hs⟩ <;>
    rcases chars_lead w with ⟨d, u, hw, hd, hu⟩ | ⟨hw, hs'⟩
  · rw [ht, hu, List.cons_append, List.cons_append, List.cons.injEq] at h
    rw [hv, hw, h.1]
  · rw [ht] at h
    exact (scalar_start hs' hc _ _ h.symm).elim
  · rw [hu] at h
    exact (scalar_start hs hd _ _ h).elim
  · rw [hv, hw]

/-- No value begins with a delimiter. -/
theorem chars_ne_delimiter (v : Json) {c : Char} (hc : isDelimiter c = true) (t u : List Char) :
    v.chars ++ t ≠ c :: u := by
  intro h
  rcases chars_lead v with ⟨d, w, _, hd, hv⟩ | ⟨_, hs⟩
  · rw [hv, List.cons_append, List.cons.injEq] at h
    rw [h.1] at hd
    simp only [isDelimiter, Bool.or_eq_true, beq_iff_eq] at hc
    rcases hc with (rfl | rfl) | rfl <;> exact absurd hd (by decide)
  · obtain ⟨hne, hall⟩ := scalar_chars hs
    obtain ⟨d, ds, hd⟩ := List.exists_cons_of_ne_nil hne
    rw [chars, hd, List.cons_append, List.cons.injEq] at h
    have ho := (hall d (hd ▸ List.mem_cons_self)).1
    rw [h.1, hc] at ho
    cases ho

theorem token_inj {xs ys r s : List Char} (hx : ∀ c ∈ xs, isDelimiter c = false)
    (hy : ∀ c ∈ ys, isDelimiter c = false) (hr : EndsValue r) (hs : EndsValue s)
    (h : xs ++ r = ys ++ s) : xs = ys ∧ r = s := by
  have hspan {zs t : List Char} (hz : ∀ c ∈ zs, isDelimiter c = false) (ht : EndsValue t) :
      (zs ++ t).span (fun c => !isDelimiter c) = (zs, t) :=
    span_append (by simpa using hz) (by simpa [EndsValue] using ht)
  have he := congrArg (List.span fun c => !isDelimiter c) h
  rw [hspan hx hr, hspan hy hs, Prod.mk.injEq] at he
  exact he

theorem tells_scalar {v : Json} (hv : v.isScalar = true) : Tells chars sorted v := by
  intro w r s hr hs h
  have hw : w.isScalar = true := by
    have hl := lead_eq h
    cases v <;> cases w <;> simp_all [lead, isScalar]
  obtain ⟨hc, hrest⟩ := token_inj (fun c hc => ((scalar_chars hv).2 c hc).1)
    (fun c hc => ((scalar_chars hw).2 c hc).1) hr hs h
  have he := congrArg scalarOfText (String.toList_inj.mp hc)
  rw [scalarOfText_stableText hv, scalarOfText_stableText hw] at he
  exact ⟨congrArg sorted (Option.some.inj he), hrest⟩

theorem tells_field {field : String × Json} (h : Tells chars sorted field.2) :
    Tells fieldChars sortedField field := by
  intro other r s hr hs he
  simp only [fieldChars, List.append_assoc, List.cons_append] at he
  obtain ⟨hname, hrest⟩ := quoted_inj he
  obtain ⟨hv, hr⟩ := h other.2 r s hr hs (List.cons.inj hrest).2
  exact ⟨Prod.ext hname hv, hr⟩

/-- The characters of a value tell it up to the order of keys, wherever they stand. -/
theorem tells_chars (v : Json) : Tells chars sorted v := by
  induction v using induction_on with
  | null => exact tells_scalar rfl
  | bool b => exact tells_scalar rfl
  | int n => exact tells_scalar rfl
  | float x => exact tells_scalar rfl
  | str t =>
    intro w r s hr hs h
    have hl := lead_eq h
    cases w with
    | str u =>
      obtain ⟨rfl, hrest⟩ := quoted_inj h
      exact ⟨rfl, hrest⟩
    | _ => cases hl
  | arr items ih =>
    intro w r s hr hs h
    have hl := lead_eq h
    cases w with
    | arr others =>
      rw [chars_arr, chars_arr, List.cons_append, List.cons_append] at h
      obtain ⟨hv, hrest⟩ := parts_inj (by decide) (by decide)
        (fun v => chars_ne_delimiter v (by decide)) ih (List.cons.inj h).2
      exact ⟨by rw [sorted_arr, sorted_arr, hv], hrest⟩
    | _ => cases hl
  | obj fields ih =>
    intro w r s hr hs h
    have hl := lead_eq h
    cases w with
    | obj others =>
      rw [chars_obj, chars_obj, List.cons_append, List.cons_append] at h
      have hfields : ∀ field ∈ sortFields fields, Tells fieldChars sortedField field := fun f hf =>
        tells_field (ih f (List.mem_mergeSort.mp hf))
      have hstart (f : String × Json) (t u : List Char) : fieldChars f ++ t ≠ '\x7d' :: u := by
        simp [fieldChars, quoted_toList]
      obtain ⟨hv, hrest⟩ := parts_inj (by decide) (by decide) hstart hfields (List.cons.inj h).2
      exact ⟨by rw [sorted_obj, sorted_obj, hv], hrest⟩
    | _ => cases hl

/-- Values of one stable text are equal up to the order of keys. -/
theorem sorted_eq_of_stableText {v w : Json} (h : v.stableText = w.stableText) :
    v.sorted = w.sorted := by
  refine (tells_chars v w [] [] (by simp [EndsValue]) (by simp [EndsValue]) ?_).1
  rw [List.append_nil, List.append_nil, chars, chars, h]

end Json

end BlockFlow
