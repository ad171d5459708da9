import Mathlib
import BlockFlow.Schema.Validation

/-! What each keyword of a schema asks of a value. -/

namespace BlockFlow

variable {definitions : Definitions} {v : Json}

/-- What a check of a value may ask of its parts. -/
def Json.judgedParts (definitions : Definitions) : Json → Parts
  | .arr items => ⟨Json.judgeItems definitions items, []⟩
  | .obj fields => ⟨[], Json.judgeFields definitions fields⟩
  | _ => ⟨[], []⟩

theorem Json.judge_eq (definitions : Definitions) (v : Json) :
    v.judge definitions =
      .make definitions (Schema.schemaViolations v (v.judgedParts definitions)) := by
  cases v <;> simp only [Json.judge, Json.judgedParts]

/-- A value does not violate a schema. -/
def Json.Fits (definitions : Definitions) (v : Json) (s : Schema) : Prop :=
  (v.judge definitions).against s = []

/-- A value does not violate a keyword. -/
def Json.Meets (definitions : Definitions) (v : Json) (k : Keyword) : Prop :=
  Schema.keywordViolations v (v.judgedParts definitions) k = []

instance Json.decidableFits (s : Schema) : Decidable (v.Fits definitions s) :=
  inferInstanceAs (Decidable (_ = []))

theorem Json.fits_iff {s : Schema} :
    v.Fits definitions s ↔ Schema.schemaViolations v (v.judgedParts definitions) s = [] := by
  rw [Json.Fits, Json.judge_eq, Verdict.make]

@[simp] theorem Json.fits_nil : v.Fits definitions [] := by
  rw [Json.fits_iff, Schema.schemaViolations]

@[simp] theorem Json.fits_cons {k : Keyword} {s : Schema} :
    v.Fits definitions (k :: s) ↔ v.Meets definitions k ∧ v.Fits definitions s := by
  rw [Json.fits_iff, Json.fits_iff, Schema.schemaViolations, List.append_eq_nil_iff, Json.Meets]

theorem Json.fits_singleton {k : Keyword} : v.Fits definitions [k] ↔ v.Meets definitions k := by
  rw [Json.fits_cons, and_iff_left Json.fits_nil]

/-! ### The parts of a value -/

theorem Json.judgeItems_eq (items : List Json) :
    Json.judgeItems definitions items = items.map (Json.judge definitions) := by
  induction items with
  | nil => rw [Json.judgeItems, List.map_nil]
  | cons item rest ih => rw [Json.judgeItems, List.map_cons, ih]

theorem Json.lookup_judgeFields (fields : List (String × Json)) (name : String) :
    (Json.judgeFields definitions fields).lookup name =
      (fields.lookup name).map (Json.judge definitions) := by
  induction fields with
  | nil => rw [Json.judgeFields, List.lookup_nil, List.lookup_nil, Option.map_none]
  | cons field rest ih =>
    obtain ⟨key, value⟩ := field
    rw [Json.judgeFields, List.lookup_cons, List.lookup_cons, ih]
    cases name == key <;> rfl

theorem Json.judge_under (name : String) :
    (v.judge definitions).under name = [] ↔
      v.Fits definitions ((definitions.lookup name).getD []) := by
  rw [Json.judge_eq, Verdict.under_make, Json.fits_iff]
  cases definitions.lookup name with
  | none => simp [Schema.schemaViolations]
  | some s => simp

theorem Schema.itemViolations_eq_nil {i : Nat} {violations : List (List Violation)} :
    Schema.itemViolations i violations = [] ↔ ∀ found ∈ violations, found = [] := by
  induction violations generalizing i with
  | nil => simp [Schema.itemViolations]
  | cons found rest ih => simp [Schema.itemViolations, ih]

/-! ### Keywords -/

@[simp] theorem Json.meets_type {expected : JsonType} :
    v.Meets definitions (.type expected) ↔ expected.holds v = true := by
  change (if expected.holds v then [] else [_]) = [] ↔ _
  split <;> simp_all

@[simp] theorem Json.meets_required {fields : List (String × Json)} {names : List String} :
    (Json.obj fields).Meets definitions (.required names) ↔
      ∀ name ∈ names, (fields.lookup name).isSome = true := by
  change (Schema.missingNames fields names).map _ = [] ↔ _
  simp [Schema.missingNames, Option.isSome_iff_ne_none]

@[simp] theorem Json.meets_properties {fields : List (String × Json)}
    {expected : List (String × Schema)} :
    (Json.obj fields).Meets definitions (.properties expected) ↔
      ∀ part ∈ expected, ∀ value, fields.lookup part.1 = some value →
        value.Fits definitions part.2 := by
  refine List.flatMap_eq_nil_iff.trans (forall₂_congr ?_)
  rintro ⟨name, s⟩ -
  simp only [Json.judgedParts, Json.lookup_judgeFields]
  cases fields.lookup name with
  | none => simp
  | some value => simp [Json.Fits]

@[simp] theorem Json.meets_itemsOf {items : List Json} {name : String} :
    (Json.arr items).Meets definitions (.itemsOf name) ↔
      ∀ item ∈ items, item.Fits definitions ((definitions.lookup name).getD []) := by
  refine Schema.itemViolations_eq_nil.trans ?_
  simp [Json.judgedParts, Json.judgeItems_eq, Json.judge_under]

@[simp] theorem Json.meets_minLength {text : String} {least : Nat} :
    (Json.str text).Meets definitions (.minLength least) ↔ least ≤ text.length := by
  change (if least ≤ text.length then [] else [_]) = [] ↔ _
  simp

@[simp] theorem Json.meets_const {expected : String} :
    v.Meets definitions (.const expected) ↔ v = .str expected := by
  cases v with
  | str text =>
    change (if text = expected then [] else [_]) = [] ↔ _
    simp
  | _ => exact iff_of_false (List.cons_ne_nil _ _) (by simp)

@[simp] theorem Json.meets_not {s : Schema} :
    v.Meets definitions (.not s) ↔ ¬ v.Fits definitions s := by
  rw [Json.fits_iff]
  change (if (Schema.schemaViolations v (v.judgedParts definitions) s).isEmpty then [_] else []) =
    [] ↔ _
  split <;> simp_all

/-- The branches of a choice that a value fits. -/
theorem Schema.fitting_eq (parts : Parts) (i : Nat) (branches : List Schema) :
    ((branches.zip (Schema.branchViolations v parts i branches)).filterMap
        fun (schema, violations) => if violations.isEmpty then some schema else none) =
      branches.filter fun s => (Schema.schemaViolations v parts s).isEmpty := by
  induction branches generalizing i with
  | nil => rfl
  | cons s rest ih =>
    rw [Schema.branchViolations, List.zip_cons_cons, List.filterMap_cons, List.filter_cons, ih]
    cases Schema.schemaViolations v parts s <;> rfl

/-- A choice asks for exactly one branch that fits. -/
theorem Json.meets_oneOf {branches : List Schema} :
    v.Meets definitions (.oneOf branches) ↔
      (branches.filter fun s => decide (v.Fits definitions s)).length = 1 := by
  have hfit : (fun s => decide (v.Fits definitions s)) =
      fun s => (Schema.schemaViolations v (v.judgedParts definitions) s).isEmpty := by
    funext s
    rw [Bool.eq_iff_iff, decide_eq_true_iff, Json.fits_iff, List.isEmpty_iff]
  rw [Json.Meets, Schema.keywordViolations, Schema.fitting_eq, hfit]
  generalize branches.filter _ = fitting
  rcases fitting with _ | ⟨first, _ | ⟨second, rest⟩⟩ <;> simp

section

variable {s : Schema} {rest : List Schema}

theorem Json.meets_oneOf_head (h : ∀ t ∈ rest, ¬ v.Fits definitions t) :
    v.Meets definitions (.oneOf (s :: rest)) ↔ v.Fits definitions s := by
  have hrest : (rest.filter fun t => decide (v.Fits definitions t)) = [] := by
    simpa [List.filter_eq_nil_iff] using h
  rw [Json.meets_oneOf, List.filter_cons, hrest]
  split <;> simp_all

theorem Json.meets_oneOf_tail (h : ¬ v.Fits definitions s) :
    v.Meets definitions (.oneOf (s :: rest)) ↔ v.Meets definitions (.oneOf rest) := by
  rw [Json.meets_oneOf, Json.meets_oneOf, List.filter_cons, if_neg (by simpa using h)]

end

end BlockFlow
