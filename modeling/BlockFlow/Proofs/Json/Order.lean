import Mathlib
import BlockFlow.Proofs.Json.Faithful

/-! Stable texts as keys. Values have one text exactly if they are the same data, so that the order
of the texts is a total order of data. -/

namespace BlockFlow

namespace Json

/-! ### Fields in order -/

section

variable {α : Type} {xs ys : List (String × α)}

theorem sortFields_perm (fields : List (String × α)) : (sortFields fields).Perm fields :=
  List.mergeSort_perm fields _

theorem pairwise_sortFields (fields : List (String × α)) :
    (sortFields fields).Pairwise fun a b => a.1 ≤ b.1 := by
  have h : (sortFields fields).Pairwise fun a b => decide (a.1 ≤ b.1) = true := by
    apply List.pairwise_mergeSort
    · intro a b c hab hbc
      simp only [decide_eq_true_eq] at hab hbc ⊢
      exact le_trans hab hbc
    · intro a b
      simpa using le_total a.1 b.1
  exact h.imp of_decide_eq_true

/-- Sorted fields stay as they are. -/
theorem sortFields_sortFields (fields : List (String × α)) :
    sortFields (sortFields fields) = sortFields fields :=
  List.mergeSort_of_pairwise ((pairwise_sortFields fields).imp decide_eq_true)

/-- Once sorted, fields of different names do not tell how they stood. -/
theorem sortFields_eq_of_perm (hn : (xs.map Prod.fst).Nodup) (h : xs.Perm ys) :
    sortFields xs = sortFields ys := by
  have hperm : (sortFields xs).Perm (sortFields ys) :=
    (sortFields_perm xs).trans (h.trans (sortFields_perm ys).symm)
  refine List.Perm.eq_of_pairwise ?_ (pairwise_sortFields xs) (pairwise_sortFields ys) hperm
  intro a b ha hb hab hba
  have hax : a ∈ xs := (sortFields_perm xs).mem_iff.mp ha
  have hbx : b ∈ xs := h.mem_iff.mpr ((sortFields_perm ys).mem_iff.mp hb)
  exact List.inj_on_of_nodup_map hn hax hbx (le_antisymm hab hba)

end

/-! ### The text of sorted data -/

theorem sorted_of_isScalar {v : Json} (h : v.isScalar = true) : v.sorted = v := by
  cases v with
  | str t => rfl
  | arr items => cases h
  | obj fields => cases h
  | _ => rfl

theorem sorted_obj_eq (fields : List (String × Json)) :
    (obj fields).sorted = obj (sortFields (fields.map sortedField)) := by
  rw [sorted, sortedFields_eq]

/-- Sorting the keys does not change the text. -/
theorem stableText_sorted (v : Json) : v.sorted.stableText = v.stableText := by
  induction v using induction_on with
  | null => rfl
  | bool b => rfl
  | int n => rfl
  | float x => rfl
  | str t => rfl
  | arr items ih =>
    have hitems : (items.map sorted).map stableText = items.map stableText := by
      rw [List.map_map]
      exact List.map_congr_left ih
    rw [sorted_arr, stableText_arr, stableText_arr, hitems]
  | obj fields ih =>
    have hfields : (fields.map sortedField).map (fun f => (f.1, f.2.stableText)) =
        fields.map fun f => (f.1, f.2.stableText) := by
      rw [List.map_map]
      apply List.map_congr_left
      intro field hf
      exact Prod.ext rfl (ih field hf)
    rw [sorted_obj_eq, stableText_obj, stableText_obj, sortFields_map, sortFields_sortFields,
      ← sortFields_map, hfields]

theorem stableText_eq_iff_sorted {v w : Json} :
    v.stableText = w.stableText ↔ v.sorted = w.sorted := by
  constructor
  · exact sorted_eq_of_stableText
  · intro h
    rw [← stableText_sorted v, h, stableText_sorted]

/-- The text of an array tells the texts of its items. -/
theorem stableText_arr_inj {xs ys : List Json} :
    (arr xs).stableText = (arr ys).stableText ↔ xs.map stableText = ys.map stableText := by
  constructor
  · intro h
    have hsorted := sorted_eq_of_stableText h
    rw [sorted_arr, sorted_arr, arr.injEq] at hsorted
    have htexts := congrArg (List.map stableText) hsorted
    simpa only [List.map_map, Function.comp_def, stableText_sorted] using htexts
  · intro h
    rw [stableText_arr, stableText_arr, h]

/-! ### Values whose keys are unique -/

/-- No object in a value has two fields of one name. -/
inductive UniqueKeys : Json → Prop
  | scalar {v : Json} (h : v.isScalar = true) : UniqueKeys v
  | str (t : String) : UniqueKeys (str t)
  | arr {items : List Json} (h : ∀ v ∈ items, UniqueKeys v) : UniqueKeys (arr items)
  | obj {fields : List (String × Json)} (names : (fields.map Prod.fst).Nodup)
      (values : ∀ field ∈ fields, UniqueKeys field.2) : UniqueKeys (obj fields)

theorem UniqueKeys.items {items : List Json} (h : (Json.arr items).UniqueKeys) :
    ∀ v ∈ items, v.UniqueKeys := by
  cases h with
  | scalar h => cases h
  | arr h => exact h

theorem UniqueKeys.fields {fields : List (String × Json)} (h : (Json.obj fields).UniqueKeys) :
    (fields.map Prod.fst).Nodup ∧ ∀ field ∈ fields, field.2.UniqueKeys := by
  cases h with
  | scalar h => cases h
  | obj names values => exact ⟨names, values⟩

theorem Reordered.symm {v w : Json} (h : Reordered v w) : Reordered w v := by
  induction h with
  | fields h => exact .fields h.symm
  | item _ ih => exact .item ih
  | field _ ih => exact .field ih

/-- One change of the order of keys leaves them unique and the sorted data as it is. -/
theorem Reordered.sorted_eq {v w : Json} (h : Reordered v w) (hv : v.UniqueKeys) :
    w.UniqueKeys ∧ v.sorted = w.sorted := by
  induction h with
  | @fields xs ys h =>
    obtain ⟨hnames, hvalues⟩ := hv.fields
    refine ⟨.obj ((h.map Prod.fst).nodup_iff.mp hnames) ?_, ?_⟩
    · intro field hf
      exact hvalues field (h.mem_iff.mpr hf)
    · rw [sorted_obj, sorted_obj, sortFields_eq_of_perm hnames h]
  | @item before after v w _ ih =>
    have hitems := hv.items
    obtain ⟨hw, hsorted⟩ := ih (hitems v (by simp))
    refine ⟨.arr ?_, by simp [sorted_arr, hsorted]⟩
    intro x hx
    rcases List.mem_append.mp hx with hx | hx
    · exact hitems x (by simp [hx])
    · rcases List.mem_cons.mp hx with rfl | hx
      · exact hw
      · exact hitems x (by simp [hx])
  | @field before after name v w _ ih =>
    obtain ⟨hnames, hvalues⟩ := hv.fields
    obtain ⟨hw, hsorted⟩ := ih (hvalues (name, v) (by simp))
    refine ⟨.obj (by simpa using hnames) ?_, by simp [sorted_obj_eq, sortedField, hsorted]⟩
    intro x hx
    rcases List.mem_append.mp hx with hx | hx
    · exact hvalues x (by simp [hx])
    · rcases List.mem_cons.mp hx with rfl | hx
      · exact hw
      · exact hvalues x (by simp [hx])

/-- Data are the same on both sides of any number of changes. -/
theorem SameData.sorted_eq {v w : Json} (h : SameData v w) :
    (v.UniqueKeys ↔ w.UniqueKeys) ∧ (v.UniqueKeys → v.sorted = w.sorted) := by
  induction h with
  | rel v w h =>
    refine ⟨⟨fun hv => (h.sorted_eq hv).1, fun hw => (h.symm.sorted_eq hw).1⟩, ?_⟩
    exact fun hv => (h.sorted_eq hv).2
  | refl v => exact ⟨Iff.rfl, fun _ => rfl⟩
  | symm v w _ ih => exact ⟨ih.1.symm, fun hw => (ih.2 (ih.1.mpr hw)).symm⟩
  | trans u v w _ _ ih ih' =>
    refine ⟨ih.1.trans ih'.1, ?_⟩
    intro hu
    exact (ih.2 hu).trans (ih'.2 (ih.1.mp hu))

/-- If its keys are unique, a value has one text with exactly the values that are the same data. -/
theorem stableText_eq_iff {v w : Json} (hv : v.UniqueKeys) :
    v.stableText = w.stableText ↔ SameData v w := by
  rw [stableText_eq_iff_sorted]
  exact ⟨sameData_of_sorted, fun h => h.sorted_eq.2 hv⟩

/-- A scalar is the same data as itself alone: no integer is a float, and zero has two signs. -/
theorem sameData_scalar {v w : Json} (hv : v.isScalar = true) : SameData v w ↔ v = w := by
  constructor
  · intro h
    have hsorted := h.sorted_eq.2 (.scalar hv)
    rw [sorted_of_isScalar hv] at hsorted
    cases w <;> simp_all [sorted, isScalar]
  · rintro rfl
    exact .refl v

/-! ### The order of values -/

variable (a b c : Json)

theorem compare_eq_compare : a.compare b = Ord.compare a.stableText b.stableText :=
  (LinearOrder.compare_eq_compareOfLessAndEq _ _).symm

theorem compare_eq_eq : a.compare b = .eq ↔ a.stableText = b.stableText := by
  rw [compare_eq_compare]
  exact compare_eq_iff_eq

theorem compare_swap : a.compare b = (b.compare a).swap := by
  rw [compare_eq_compare, compare_eq_compare]
  exact Std.OrientedCmp.eq_swap

variable {a b c}

theorem compare_trans (hab : (a.compare b).isLE = true) (hbc : (b.compare c).isLE = true) :
    (a.compare c).isLE = true := by
  rw [compare_eq_compare] at hab hbc ⊢
  exact Std.TransCmp.isLE_trans hab hbc

/-- A stable text is a key of the data that a value with unique keys is: other values have the same
text exactly if they are the same data, which for a scalar is the scalar alone. The order of the
texts is a total order of such data. -/
theorem stableText_faithful (ha : a.UniqueKeys) (b c : Json) :
    (a.stableText = b.stableText ↔ SameData a b) ∧
      (a.isScalar = true → (SameData a b ↔ a = b)) ∧
      (a.compare b = .eq ↔ SameData a b) ∧
      a.compare b = (b.compare a).swap ∧
      ((a.compare b).isLE = true → (b.compare c).isLE = true → (a.compare c).isLE = true) := by
  refine ⟨stableText_eq_iff ha, sameData_scalar, ?_, compare_swap a b, compare_trans⟩
  rw [compare_eq_eq, stableText_eq_iff ha]

/-- An object with an array and another object inside. -/
def nestedKeys : Json :=
  obj [("b", arr [int 1, float .nan]), ("a", obj [("y", null), ("x", float (.ofInt 1))])]

/-- The same data with other keys first, outside and inside. -/
def nestedKeysTurned : Json :=
  obj [("a", obj [("x", float (.ofInt 1)), ("y", null)]), ("b", arr [int 1, float .nan])]

theorem nestedKeys_faithful :
    nestedKeys.UniqueKeys ∧ nestedKeys.stableText = nestedKeysTurned.stableText ∧
      nestedKeys.compare nestedKeysTurned = .eq ∧
      (int 1).stableText ≠ (float (.ofInt 1)).stableText := by
  have hpair {v w : Json} (hv : v.UniqueKeys) (hw : w.UniqueKeys) :
      ∀ x ∈ [v, w], x.UniqueKeys := by
    simp [hv, hw]
  have hfields {m n : String} {v w : Json} (hn : m ≠ n) (hv : v.UniqueKeys) (hw : w.UniqueKeys) :
      (obj [(m, v), (n, w)]).UniqueKeys := .obj (by simp [hn]) (by simp [hv, hw])
  have hunique : nestedKeys.UniqueKeys :=
    hfields (by decide) (.arr (hpair (.scalar rfl) (.scalar rfl)))
      (hfields (by decide) (.scalar rfl) (.scalar rfl))
  have hswap (x y : String × Json) : SameData (obj [x, y]) (obj [y, x]) :=
    .rel _ _ (.fields (.swap y x []))
  have hsame : SameData nestedKeys nestedKeysTurned :=
    (hswap _ _).trans (.fields (.cons ⟨rfl, hswap _ _⟩ (.cons ⟨rfl, .refl _⟩ .nil)))
  obtain ⟨htext, -, horder, -⟩ := stableText_faithful hunique nestedKeysTurned null
  obtain ⟨hone, hscalar, -⟩ := stableText_faithful (.scalar (v := int 1) rfl)
    (float (.ofInt 1)) null
  refine ⟨hunique, htext.mpr hsame, horder.mpr hsame, ?_⟩
  intro h
  cases (hscalar rfl).mp (hone.mp h)

end Json

end BlockFlow
