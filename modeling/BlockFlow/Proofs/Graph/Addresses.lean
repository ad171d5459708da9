import Mathlib
import BlockFlow.Proofs.Graph.Places

/-! The text of a path is an address: the keys and positions that it spells out can be read back,
and followed in a document they lead where the path leads. -/

namespace BlockFlow

namespace Json

/-- One step of an address: a key of an object, or a position in an array. -/
inductive Selector
  | key (name : String)
  | index (i : Nat)
deriving DecidableEq

/-- The part of a value that a selector names. -/
def select? : Selector → Json → Option Json
  | .key name, .obj fields => fields.lookup name
  | .index i, .arr items => items[i]?
  | _, _ => none

/-- The part of a value that selectors lead to, one after another. -/
def follow? : List Selector → Json → Option Json
  | [], v => some v
  | selector :: rest, v => (v.select? selector).bind (follow? rest)

/-- A position as it stands behind an opening bracket: digits and the closing bracket. -/
def position? (word : List Char) : Option Nat :=
  match word.reverse with
  | ']' :: digits =>
    if !digits.isEmpty && digits.all Char.isDigit then some (Nat.ofDigitChars 10 digits.reverse 0)
    else none
  | _ => none

/-- Reads the steps `.key` and `[index]` of an address, from its end on. The characters in front of
the first step are left over. -/
def readSelectors : List Char → Option (List Char × List Selector)
  | [] => some ([], [])
  | c :: rest =>
    (readSelectors rest).bind fun (word, selectors) =>
      if c = '.' then some ([], .key (String.ofList word) :: selectors)
      else if c = '[' then (position? word).map fun i => ([], .index i :: selectors)
      else some (c :: word, selectors)

/-- The steps that an address spells out. -/
def selectors? (address : String) : Option (List Selector) :=
  match readSelectors address.toList with
  | some ([], selectors) => some selectors
  | _ => none

/-- The part of a document at an address. -/
def atAddress? (address : String) (document : Json) : Option Json :=
  (selectors? address).bind fun selectors => document.follow? selectors

end Json

open Json

/-- What a step of a path selects. -/
def Step.selector : Step → Selector
  | args => .key "args"
  | callValues => .key "service_call_values"
  | value => .key "value"
  | contents => .key "contents"
  | index i => .index i

theorem Step.selector_injective : Function.Injective Step.selector := by
  intro a b h
  cases a <;> cases b <;> simp_all [Step.selector]

/-! ### Reading an address -/

/-- A word without a beginning of a step is kept for the step in front of it. -/
theorem readSelectors_word {word rest : List Char} {selectors : List Selector}
    (hw : ∀ c ∈ word, c ≠ '.' ∧ c ≠ '[') (hr : readSelectors rest = some ([], selectors)) :
    readSelectors (word ++ rest) = some (word, selectors) := by
  induction word with
  | nil => exact hr
  | cons c word ih =>
    obtain ⟨⟨hdot, hbracket⟩, hword⟩ := List.forall_mem_cons.mp hw
    simp [readSelectors, ih hword, hdot, hbracket]

theorem readSelectors_key (name : String) {rest : List Char} {selectors : List Selector}
    (hn : ∀ c ∈ name.toList, c ≠ '.' ∧ c ≠ '[')
    (hr : readSelectors rest = some ([], selectors)) :
    readSelectors ('.' :: (name.toList ++ rest)) = some ([], .key name :: selectors) := by
  simp [readSelectors, readSelectors_word hn hr]

theorem position?_toDigits (i : Nat) : position? (Nat.toDigits 10 i ++ [']']) = some i := by
  have hall : (Nat.toDigits 10 i).reverse.all Char.isDigit = true := by
    rw [List.all_reverse, List.all_eq_true]
    exact fun c hc => Nat.isDigit_of_mem_toDigits (by decide) (by decide) hc
  simp only [position?, List.reverse_append, List.reverse_singleton, List.singleton_append, hall]
  simp [Nat.toDigits_ne_nil, Nat.ofDigitChars_ten_toDigits]

theorem readSelectors_index (i : Nat) {rest : List Char} {selectors : List Selector}
    (hr : readSelectors rest = some ([], selectors)) :
    readSelectors ('[' :: (Nat.toDigits 10 i ++ [']'] ++ rest)) =
      some ([], .index i :: selectors) := by
  have hw : ∀ c ∈ Nat.toDigits 10 i ++ [']'], c ≠ '.' ∧ c ≠ '[' := by
    intro c hc
    rcases List.mem_append.mp hc with hc | hc
    · have hdigit := Nat.isDigit_of_mem_toDigits (by decide) (by decide) hc
      constructor <;> rintro rfl <;> exact absurd hdigit (by decide)
    · obtain rfl := List.mem_singleton.mp hc
      decide
  simp only [readSelectors, readSelectors_word hw hr, Option.bind_some, position?_toDigits]
  rfl

theorem readSelectors_step (step : Step) {rest : List Char} {selectors : List Selector}
    (hr : readSelectors rest = some ([], selectors)) :
    readSelectors (step.text.toList ++ rest) = some ([], step.selector :: selectors) := by
  cases step with
  | args => exact readSelectors_key "args" (by simp) hr
  | callValues => exact readSelectors_key "service_call_values" (by simp) hr
  | value => exact readSelectors_key "value" (by simp) hr
  | contents => exact readSelectors_key "contents" (by simp) hr
  | index i =>
    have htext : (Step.index i).text.toList = '[' :: (Nat.toDigits 10 i ++ [']']) := by
      simp [Step.text, Nat.toString_eq_repr, Nat.repr_eq_ofList_toDigits]
    rw [htext]
    exact readSelectors_index i hr

/-- The characters of the steps of a path. -/
def stepChars (steps : List Step) : List Char := steps.flatMap fun step => step.text.toList

theorem Path.toList_text (p : Path) : p.text.toList = p.base.toList ++ stepChars p.steps := by
  simp [Path.text, stepChars, List.flatMap_map]

theorem readSelectors_steps (steps : List Step) :
    readSelectors (stepChars steps) = some ([], steps.map Step.selector) := by
  induction steps with
  | nil => rfl
  | cons step rest ih => exact readSelectors_step step ih

/-- Paths from one place have different texts if they differ. -/
theorem Path.eq_of_text {p q : Path} (hbase : p.base = q.base) (htext : p.text = q.text) :
    p = q := by
  have hchars := congrArg String.toList htext
  rw [Path.toList_text, Path.toList_text, hbase, List.append_cancel_left_eq] at hchars
  have hread := congrArg readSelectors hchars
  rw [readSelectors_steps, readSelectors_steps] at hread
  have hsteps : p.steps = q.steps :=
    List.map_injective_iff.mpr Step.selector_injective (by simpa using hread)
  cases p
  cases q
  simp_all

/-! ### Following an address -/

theorem Json.step?_eq_select? (step : Step) (v : Json) :
    v.step? step = v.select? step.selector := by
  cases step <;> cases v <;> rfl

theorem Json.at?_eq_follow? (steps : List Step) (v : Json) :
    v.at? steps = v.follow? (steps.map Step.selector) := by
  induction steps generalizing v with
  | nil => rfl
  | cons step rest ih =>
    rw [Json.at?, Json.step?_eq_select?]
    exact Option.bind_congr fun part _ => ih part

/-- The text of a path from the top of a document is the address of the part that it leads to. -/
theorem Json.Leads.atAddress? {d part : Json} {path : Path} (h : d.Leads path part)
    (hbase : path.base = "") : d.atAddress? path.text = some part := by
  have hchars : path.text.toList = stepChars path.steps := by
    rw [Path.toList_text, hbase]
    rfl
  rw [Json.atAddress?, Json.selectors?, hchars, readSelectors_steps]
  exact (Json.at?_eq_follow? path.steps d).symm.trans h

end BlockFlow
