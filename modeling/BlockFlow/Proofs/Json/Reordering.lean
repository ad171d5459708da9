import Mathlib
import BlockFlow.Json.Printer

/-! Values that differ in the order of keys only. -/

namespace BlockFlow

/-- Members of a list replaced one after another. -/
theorem rel_of_forall₂ {α β : Type} {R : α → α → Prop} {S : β → β → Prop} {f : List α → β}
    (hrefl : ∀ b, S b b) (htrans : ∀ {a b c}, S a b → S b c → S a c)
    (hf : ∀ before after a b, R a b → S (f (before ++ a :: after)) (f (before ++ b :: after)))
    {xs ys : List α} (h : List.Forall₂ R xs ys) : S (f xs) (f ys) := by
  have hstep (before : List α) : S (f (before ++ xs)) (f (before ++ ys)) := by
    induction h generalizing before with
    | nil => exact hrefl _
    | cons hab _ ih =>
      rename_i a b xs ys _
      have ht := ih (before ++ [b])
      rw [List.append_assoc, List.append_assoc] at ht
      exact htrans (hf before xs a b hab) ht
  exact hstep []

/-- What makes related values equivalent makes equivalent values equivalent. -/
theorem eqvGen_lift {α β : Type} {r : α → α → Prop} {q : β → β → Prop} {f : α → β}
    (hf : ∀ a b, r a b → Relation.EqvGen q (f a) (f b)) {a b : α} (h : Relation.EqvGen r a b) :
    Relation.EqvGen q (f a) (f b) := by
  induction h with
  | rel a b h => exact hf a b h
  | refl a => exact .refl _
  | symm a b _ ih => exact .symm _ _ ih
  | trans a b c _ _ ih ih' => exact .trans _ _ _ ih ih'

namespace Json

mutual

/-- A value with the fields of every object in the order of their names. -/
def sorted : Json → Json
  | arr items => arr (sortedItems items)
  | obj fields => obj (sortFields (sortedFields fields))
  | null => null
  | bool b => bool b
  | int n => int n
  | float x => float x
  | str t => str t

def sortedItems : List Json → List Json
  | [] => []
  | v :: rest => sorted v :: sortedItems rest

def sortedFields : List (String × Json) → List (String × Json)
  | [] => []
  | (name, v) :: rest => (name, sorted v) :: sortedFields rest

end

theorem sortedItems_eq (items : List Json) : sortedItems items = items.map sorted := by
  induction items with
  | nil => rfl
  | cons v rest ih => rw [sortedItems, ih, List.map_cons]

/-- A field with its value sorted. -/
def sortedField (field : String × Json) : String × Json := (field.1, field.2.sorted)

theorem sortedFields_eq (fields : List (String × Json)) :
    sortedFields fields = fields.map sortedField := by
  induction fields with
  | nil => rfl
  | cons field rest ih => rw [sortedFields, ih, List.map_cons]; rfl

theorem sortFields_map {α β : Type} (f : α → β) (fields : List (String × α)) :
    sortFields (fields.map fun field => (field.1, f field.2)) =
      (sortFields fields).map fun field => (field.1, f field.2) := by
  rw [sortFields, sortFields, List.map_mergeSort]
  simp

theorem sorted_str (t : String) : (str t).sorted = str t := rfl

theorem sorted_arr (items : List Json) : (arr items).sorted = arr (items.map sorted) := by
  rw [sorted, sortedItems_eq]

theorem sorted_obj (fields : List (String × Json)) :
    (obj fields).sorted = obj ((sortFields fields).map sortedField) := by
  rw [sorted, sortedFields_eq]
  exact congrArg obj (sortFields_map sorted fields)

/-- Induction over a value from the values inside it. -/
theorem induction_on {P : Json → Prop} (null : P null) (bool : ∀ b, P (bool b))
    (int : ∀ n, P (int n)) (float : ∀ x, P (float x)) (str : ∀ t, P (str t))
    (arr : ∀ items, (∀ v ∈ items, P v) → P (arr items))
    (obj : ∀ fields, (∀ field ∈ fields, P field.2) → P (obj fields)) (v : Json) : P v := by
  refine @Json.rec P (fun items => ∀ v ∈ items, P v) (fun fields => ∀ field ∈ fields, P field.2)
    (fun field => P field.2) null bool int float str arr obj ?_ ?_ ?_ ?_ ?_ v
  all_goals simp_all

/-- One change of the order of keys, at any depth. -/
inductive Reordered : Json → Json → Prop
  | fields {fields fields' : List (String × Json)} (h : fields.Perm fields') :
      Reordered (obj fields) (obj fields')
  | item {before after : List Json} {v w : Json} (h : Reordered v w) :
      Reordered (arr (before ++ v :: after)) (arr (before ++ w :: after))
  | field {before after : List (String × Json)} {name : String} {v w : Json} (h : Reordered v w) :
      Reordered (obj (before ++ (name, v) :: after)) (obj (before ++ (name, w) :: after))

/-- Equal up to the order of keys. -/
def SameData : Json → Json → Prop := Relation.EqvGen Reordered

namespace SameData

theorem refl (v : Json) : SameData v v := Relation.EqvGen.refl v

theorem symm {v w : Json} (h : SameData v w) : SameData w v := Relation.EqvGen.symm _ _ h

theorem trans {u v w : Json} (h : SameData u v) (h' : SameData v w) : SameData u w :=
  Relation.EqvGen.trans _ _ _ h h'

theorem lift {f : Json → Json} (hf : ∀ v w, Reordered v w → Reordered (f v) (f w)) {v w : Json}
    (h : SameData v w) : SameData (f v) (f w) :=
  eqvGen_lift (fun v w hv => .rel _ _ (hf v w hv)) h

theorem items {xs ys : List Json} (h : List.Forall₂ SameData xs ys) :
    SameData (arr xs) (arr ys) := by
  refine rel_of_forall₂ refl trans (fun before after v w hv => ?_) h
  exact hv.lift (f := fun x => arr (before ++ x :: after)) fun _ _ hc => .item hc

theorem fields {xs ys : List (String × Json)}
    (h : List.Forall₂ (fun x y => x.1 = y.1 ∧ SameData x.2 y.2) xs ys) :
    SameData (obj xs) (obj ys) := by
  refine rel_of_forall₂ refl trans (fun before after x y hxy => ?_) h
  obtain ⟨name, v⟩ := x
  obtain ⟨_, w⟩ := y
  obtain ⟨rfl, hv⟩ := hxy
  exact hv.lift (f := fun x => obj (before ++ (name, x) :: after)) fun _ _ hc => .field hc

end SameData

/-- A value is the same data with its keys in order. -/
theorem sameData_sorted (v : Json) : SameData v v.sorted := by
  induction v using induction_on with
  | null => exact .refl _
  | bool b => exact .refl _
  | int n => exact .refl _
  | float x => exact .refl _
  | str t => exact .refl _
  | arr items ih =>
    rw [sorted_arr]
    apply SameData.items
    rw [List.forall₂_map_right_iff, List.forall₂_same]
    exact ih
  | obj fields ih =>
    rw [sorted_obj]
    have hsort : SameData (obj fields) (obj (sortFields fields)) :=
      .rel _ _ (.fields (List.mergeSort_perm _ _).symm)
    refine hsort.trans (SameData.fields ?_)
    rw [List.forall₂_map_right_iff, List.forall₂_same]
    exact fun field hf => ⟨rfl, ih field (List.mem_mergeSort.mp hf)⟩

theorem sameData_of_sorted {v w : Json} (h : v.sorted = w.sorted) : SameData v w := by
  have hw := (sameData_sorted w).symm
  rw [← h] at hw
  exact (sameData_sorted v).trans hw

end Json

end BlockFlow
