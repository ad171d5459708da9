import Mathlib
import BlockFlow.Canonical

/-! Stable texts are put together from the stable texts of the parts. -/

namespace BlockFlow

namespace Json

/-- The written parts of a container, with commas between them. -/
def commaSeparated (parts : List String) : String := ",".intercalate parts

theorem enclose_stable (depth : Nat) (opening closing : String) (parts : List String) :
    Style.stable.spacing.enclose depth opening closing parts =
      opening ++ commaSeparated parts ++ closing := by
  cases parts <;> simp [Style.stable, Spacing.enclose, commaSeparated]

mutual

/-- Nothing is indented, so that the depth does not count. -/
theorem textAt_stable : ∀ (v : Json) (depth : Nat), textAt .stable depth v = v.stableText
  | null, _ | bool _, _ | int _, _ | float _, _ | str _, _ => rfl
  | arr items, depth => by
    simp only [stableText, text, textAt, enclose_stable, itemTexts_stable items]
  | obj fields, depth => by
    simp only [stableText, text, textAt, Style.objectText, enclose_stable, fieldTexts_stable fields]

theorem itemTexts_stable : ∀ (items : List Json) (depth : Nat),
    itemTexts .stable depth items = items.map stableText
  | [], _ => rfl
  | v :: rest, depth => by
    simp only [itemTexts, List.map_cons, textAt_stable v, itemTexts_stable rest]

theorem fieldTexts_stable : ∀ (fields : List (String × Json)) (depth : Nat),
    fieldTexts .stable depth fields = fields.map fun f => (f.1, f.2.stableText)
  | [], _ => rfl
  | (name, v) :: rest, depth => by
    simp only [fieldTexts, List.map_cons, textAt_stable v, fieldTexts_stable rest]

end

theorem stableText_arr (items : List Json) :
    (arr items).stableText = "[" ++ commaSeparated (items.map stableText) ++ "]" := by
  rw [stableText, text, textAt, enclose_stable, itemTexts_stable]

/-- Arrays with the same texts of items have the same text. -/
theorem stableText_arr_congr {α : Type} {toJson : α → Json} {xs ys : List α}
    (h : xs.map (fun a => (toJson a).stableText) = ys.map fun a => (toJson a).stableText) :
    (arr (xs.map toJson)).stableText = (arr (ys.map toJson)).stableText := by
  simp only [stableText_arr, List.map_map, Function.comp_def, h]

/-- A written field. -/
def fieldText (field : String × String) : String := quoted false field.1 ++ ":" ++ field.2

theorem stableText_obj (fields : List (String × Json)) :
    (obj fields).stableText =
      "\x7b" ++ commaSeparated
        ((sortFields (fields.map fun f => (f.1, f.2.stableText))).map fieldText) ++ "\x7d" := by
  rw [stableText, text, textAt, Style.objectText, enclose_stable, fieldTexts_stable]
  rfl

end Json

theorem pairwise_mergeSort_texts (texts : List String) :
    (texts.mergeSort fun a b => decide (a ≤ b)).Pairwise (· ≤ ·) := by
  have h : (texts.mergeSort fun a b => decide (a ≤ b)).Pairwise
      (fun a b => decide (a ≤ b) = true) := by
    apply List.pairwise_mergeSort
    · simpa using fun a b c => le_trans
    · simpa using le_total
  exact h.imp of_decide_eq_true

/-- Sorted texts depend on the texts alone, not on their order. -/
theorem mergeSort_eq_of_perm {xs ys : List String} (h : xs.Perm ys) :
    xs.mergeSort (fun a b => decide (a ≤ b)) = ys.mergeSort fun a b => decide (a ≤ b) := by
  refine List.Perm.eq_of_pairwise (fun a b _ _ => le_antisymm) (pairwise_mergeSort_texts xs)
    (pairwise_mergeSort_texts ys) ?_
  exact (List.mergeSort_perm xs _).trans (h.trans (List.mergeSort_perm ys _).symm)

section

variable {α : Type} (toJson : α → Json)

theorem sortByText_perm (items : List α) : (sortByText toJson items).Perm items := by
  have h := (List.mergeSort_perm (items.map fun a => ((toJson a).stableText, a))
    fun a b => decide (a.1 ≤ b.1)).map Prod.snd
  simpa [sortByText, Function.comp_def] using h

/-- The texts of sorted items are the sorted texts of the items. -/
theorem sortByText_texts (items : List α) :
    (sortByText toJson items).map (fun a => (toJson a).stableText) =
      (items.map fun a => (toJson a).stableText).mergeSort fun a b => decide (a ≤ b) := by
  have hk : ∀ p ∈ items.map fun a => ((toJson a).stableText, a), p.1 = (toJson p.2).stableText := by
    simp
  rw [sortByText, List.map_map, List.map_mergeSort (s := fun a b => decide (a ≤ b)), List.map_map]
  · rfl
  · intro p hp q hq
    simp only [hk p hp, hk q hq, Function.comp_apply]

/-- Items with the same texts, in whatever order, have the same texts once sorted. -/
theorem sortByText_texts_eq {xs ys : List α}
    (h : (xs.map fun a => (toJson a).stableText).Perm (ys.map fun a => (toJson a).stableText)) :
    (sortByText toJson xs).map (fun a => (toJson a).stableText) =
      (sortByText toJson ys).map fun a => (toJson a).stableText := by
  rw [sortByText_texts, sortByText_texts, mergeSort_eq_of_perm h]

theorem pairwise_sortByText (items : List α) :
    (sortByText toJson items).Pairwise
      fun a b => (toJson a).stableText ≤ (toJson b).stableText := by
  have h := pairwise_mergeSort_texts (items.map fun a => (toJson a).stableText)
  rw [← sortByText_texts, List.pairwise_map] at h
  exact h

/-- Sorted items stay as they are, equal texts included. -/
theorem sortByText_sortByText (items : List α) :
    sortByText toJson (sortByText toJson items) = sortByText toJson items := by
  have hsorted := pairwise_sortByText toJson items
  generalize sortByText toJson items = sorted at hsorted
  rw [sortByText, List.mergeSort_of_pairwise]
  · simp [Function.comp_def]
  · rw [List.pairwise_map]
    exact hsorted.imp decide_eq_true

end

end BlockFlow
