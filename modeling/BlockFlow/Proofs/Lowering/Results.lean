import Mathlib
import BlockFlow.Lowering

/-! What lowering gives, places and warnings aside: the result depends on the source alone. -/

namespace BlockFlow

namespace Traced

variable {ω ε α β : Type}

/-- The result, if there is one. -/
def result (x : Traced ω ε α) : Option α := x.outcome.toOption

@[simp] theorem result_pure (a : α) : (Pure.pure a : Traced ω ε α).result = some a := rfl

@[simp] theorem result_fail (e : ε) : (fail e : Traced ω ε α).result = none := rfl

@[simp] theorem result_emit (entry : ω) : (emit entry : Traced ω ε Unit).result = some () := rfl

@[simp] theorem result_bind (x : Traced ω ε α) (f : α → Traced ω ε β) :
    (x >>= f).result = x.result.bind fun a => (f a).result := by
  obtain ⟨trace, _ | a⟩ := x <;> rfl

theorem result_bind_eq_some {x : Traced ω ε α} {f : α → Traced ω ε β} {b : β} :
    (x >>= f).result = some b ↔ ∃ a, x.result = some a ∧ (f a).result = some b := by
  rw [result_bind, Option.bind_eq_some_iff]

@[simp] theorem result_map (f : α → β) (x : Traced ω ε α) :
    (f <$> x).result = x.result.map f := by
  obtain ⟨trace, _ | a⟩ := x <;> rfl

theorem result_eq_some {x : Traced ω ε α} {a : α} : x.result = some a ↔ x.outcome = .ok a := by
  obtain ⟨trace, _ | b⟩ := x <;> simp [result, Except.toOption]

end Traced

open Lowering

theorem result_checkPaths (least : Int) (path : Path) (paths : List Content) :
    (checkPaths least path paths).result = some () := by
  unfold checkPaths
  split <;> rfl

/-- Lowering an operation gives the same block, or none, whatever the place and the least number of
paths. -/
def Placeless (items : List Json) : Prop :=
  ∀ l m p q, (lowerItems l p items).result = (lowerItems m q items).result

/-- Every operation among values is placeless. -/
def AllPlaceless (values : List Json) : Prop := ∀ items, .arr items ∈ values → Placeless items

theorem AllPlaceless.head {v : Json} {rest : List Json} (h : AllPlaceless (v :: rest)) :
    AllPlaceless [v] := by
  intro items hi
  exact h items (by simp_all)

theorem AllPlaceless.tail {v : Json} {rest : List Json} (h : AllPlaceless (v :: rest)) :
    AllPlaceless rest :=
  fun items hi => h items (List.mem_cons_of_mem v hi)

theorem lowerArgument_result {v : Json} (h : AllPlaceless [v]) (l m : Int) (p q : Path) :
    (lowerArgument l p v).result = (lowerArgument m q v).result := by
  cases v with
  | arr items =>
    simp only [lowerArgument, Traced.result_bind, h items (by simp) l m p q, Traced.result_pure]
  | _ => rfl

theorem lowerOperation_result {v : Json} (h : AllPlaceless [v]) (l m : Int) (p q : Path) :
    (lowerOperation l p v).result = (lowerOperation m q v).result := by
  cases v with
  | arr items => exact h items (by simp) l m p q
  | _ => rfl

theorem lowerArguments_result {values : List Json} (h : AllPlaceless values) (l m : Int)
    (p q : Path) (i j : Nat) :
    (lowerArguments l p i values).result = (lowerArguments m q j values).result := by
  induction values generalizing i j with
  | nil => rfl
  | cons v rest ih =>
    simp only [lowerArguments, Traced.result_bind, Traced.result_pure, ih h.tail (i + 1) (j + 1),
      lowerArgument_result h.head l m (p.index i) (q.index j)]

theorem lowerSequence_result {values : List Json} (h : AllPlaceless values) (l m : Int) (p q : Path)
    (i j : Nat) : (lowerSequence l p i values).result = (lowerSequence m q j values).result := by
  induction values generalizing i j with
  | nil => rfl
  | cons v rest ih =>
    simp only [lowerSequence, Traced.result_bind, Traced.result_pure, ih h.tail (i + 1) (j + 1),
      lowerOperation_result h.head l m (p.index i) (q.index j)]

theorem lowerBodies_result {bodies : List Json}
    (h : ∀ operations, .arr operations ∈ bodies → AllPlaceless operations) (l m : Int) (p q : Path)
    (i j : Nat) : (lowerBodies l p i bodies).result = (lowerBodies m q j bodies).result := by
  induction bodies generalizing i j with
  | nil => rfl
  | cons v rest ih =>
    cases v with
    | arr operations =>
      simp only [lowerBodies, Traced.result_bind, Traced.result_pure,
        ih (fun o ho => h o (List.mem_cons_of_mem _ ho)) (i + 1) (j + 1),
        lowerSequence_result (h operations (by simp)) l m (p.contents.index i) (q.contents.index j)
          0 0]
    | _ => rfl

theorem lowerCallValues_result {call : List (String × Json)}
    (h : ∀ name values, (name, .arr values) ∈ call → AllPlaceless values) (l m : Int) (p q : Path) :
    (lowerCallValues l p call).result = (lowerCallValues m q call).result := by
  induction call with
  | nil => rfl
  | cons field rest ih =>
    obtain ⟨name, v⟩ := field
    have hr := ih (fun o vs ho => h o vs (List.mem_cons_of_mem _ ho))
    cases v with
    | arr values =>
      have hv := lowerArguments_result (h name values (by simp)) l m p.callValues q.callValues 0 0
      simp only [lowerCallValues]
      split <;> assumption
    | _ =>
      simp only [lowerCallValues]
      split
      · split <;> rfl
      · exact hr

theorem sizeOf_arr_lt {items values : List Json} (h : Json.arr values ∈ items) :
    sizeOf values < sizeOf items := by
  have := List.sizeOf_lt_of_mem h
  simp only [Json.arr.sizeOf_spec] at this
  omega

/-- An operation whose fields are its arguments. -/
def IsPlainTag (tag : String) : Prop :=
  Operation.ofTag? tag ≠ some .waitForMonitor ∧ Operation.ofTag? tag ≠ some .callService ∧
    Operation.ofTag? tag ≠ some .ifElse ∧ Operation.ofTag? tag ≠ some .forkExecution

theorem tag_cases (tag : String) :
    Operation.ofTag? tag = some .waitForMonitor ∨ Operation.ofTag? tag = some .callService ∨
      Operation.ofTag? tag = some .ifElse ∨ Operation.ofTag? tag = some .forkExecution ∨
      IsPlainTag tag := by
  unfold IsPlainTag
  tauto

theorem lowerItems_plain {tag : String} (h : IsPlainTag tag) (l : Int) (p : Path)
    (fields : List Json) :
    lowerItems l p (.str tag :: fields) =
      (do return .mk .null tag (.list (← lowerArguments l p.args 0 fields)) []) := by
  obtain ⟨h1, h2, h3, h4⟩ := h
  rw [lowerItems.eq_2]
  split <;> simp_all

/-- The size of the array is what goes down: the operations inside a call, a branch or a path lie
several arrays deep. -/
theorem placeless (items : List Json) : Placeless items := by
  induction items using (measure (sizeOf (α := List Json))).wf.induction with | _ items ih =>
  have inside (values : List Json) (h : sizeOf values < sizeOf items) : AllPlaceless values :=
    fun o ho => ih o (Nat.lt_trans (sizeOf_arr_lt ho) h)
  intro l m p q
  rcases items with _ | ⟨v, fields⟩
  · rfl
  cases v with
  | str tag =>
    have hf : AllPlaceless fields := inside fields (by simp)
    rcases tag_cases tag with ht | ht | ht | ht | ht
    · simp only [lowerItems, ht]
      rcases fields with _ | ⟨_ | _ | _ | _ | _ | _ | call, rest⟩ <;> rfl
    · simp only [lowerItems, ht]
      rcases fields with _ | ⟨_ | _ | _ | _ | _ | _ | call, rest⟩ <;> try rfl
      have hc : ∀ name values, (name, .arr values) ∈ call → AllPlaceless values := by
        intro name values h
        have := List.sizeOf_lt_of_mem h
        exact inside values (by simp at this ⊢; omega)
      simp only [lowerCall, Traced.result_bind, lowerCallValues_result hc l m p q,
        Traced.result_pure]
    · simp only [lowerItems, ht]
      rcases fields with _ | ⟨condition, branches⟩
      · rfl
      have hb : ∀ operations, .arr operations ∈ branches → AllPlaceless operations :=
        fun o ho => inside o (by have := sizeOf_arr_lt ho; simp; omega)
      simp only [lowerConditional]
      split
      · rfl
      · simp only [Traced.result_bind, Traced.result_pure, lowerBodies_result hb l m p q 0 0,
          lowerArgument_result hf.head l m _ (q.args.index 0)]
    · simp only [lowerItems, ht]
      rcases fields with _ | ⟨_ | _ | _ | _ | _ | args | _, rest⟩ <;> try rfl
      · simp only [lowerFork, Traced.result_bind, result_checkPaths, Traced.result_pure]
      have ha := inside args (by simp; omega)
      rcases rest with _ | ⟨_ | _ | _ | _ | _ | paths | _, rest⟩ <;> try rfl
      · simp only [lowerFork, Traced.result_bind, result_checkPaths, Traced.result_pure,
          lowerArguments_result ha l m p.args q.args 0 0]
      have hb : ∀ operations, .arr operations ∈ paths → AllPlaceless operations :=
        fun o ho => inside o (by have := sizeOf_arr_lt ho; simp; omega)
      simp only [lowerFork, Traced.result_bind, result_checkPaths, Traced.result_pure,
        lowerArguments_result ha l m p.args q.args 0 0, lowerBodies_result hb l m p q 0 0]
    · simp only [lowerItems_plain ht, Traced.result_bind, Traced.result_pure,
        lowerArguments_result hf l m p.args q.args 0 0]
  | _ => rfl

theorem allPlaceless (values : List Json) : AllPlaceless values := fun items _ => placeless items

namespace Json

/-- The block that an operation becomes. -/
def block? (v : Json) : Option Block := (lowerOperation 0 .top v).result

/-- What an argument becomes. -/
def arg? (v : Json) : Option Arg := (lowerArgument 0 .top v).result

/-- The body that a list of operations becomes. -/
def body? : Json → Option Content
  | .arr operations => (operations.mapM block?).map fun blocks => .group (blocks.map .block)
  | _ => none

/-- The values of a service call. -/
def callValues? (call : List (String × Json)) : Option (List Arg) :=
  (lowerCallValues 0 .top call).result

/-- The tree that a program becomes. -/
def tree? : Json → Option Graph
  | .arr operations => operations.mapM block?
  | _ => none

end Json

open Json

variable {l : Int} {p : Path} {i : Nat} {tag : String}

theorem lowerArguments_result_eq (values : List Json) :
    (lowerArguments l p i values).result = values.mapM arg? := by
  induction values generalizing i with
  | nil => rfl
  | cons v rest ih =>
    have hv := lowerArgument_result (allPlaceless [v]) l 0 (p.index i) .top
    rw [List.mapM_cons]
    simp only [lowerArguments, Traced.result_bind, ih, hv, Traced.result_pure, arg?]
    rfl

theorem lowerSequence_result_eq (operations : List Json) :
    (lowerSequence l p i operations).result = operations.mapM block? := by
  induction operations generalizing i with
  | nil => rfl
  | cons v rest ih =>
    have hv := lowerOperation_result (allPlaceless [v]) l 0 (p.index i) .top
    rw [List.mapM_cons]
    simp only [lowerSequence, Traced.result_bind, ih, hv, Traced.result_pure, block?]
    rfl

theorem lowerBodies_result_eq (bodies : List Json) :
    (lowerBodies l p i bodies).result = bodies.mapM body? := by
  induction bodies generalizing i with
  | nil => rfl
  | cons v rest ih =>
    rw [List.mapM_cons]
    cases v with
    | arr operations =>
      simp only [lowerBodies, Traced.result_bind, ih, lowerSequence_result_eq, Traced.result_pure,
        body?]
      cases operations.mapM block? <;> rfl
    | _ => rfl

theorem lowerProgram_result_eq (v : Json) : (lowerProgram l p v).result = v.tree? := by
  cases v with
  | arr operations => exact lowerSequence_result_eq operations
  | _ => rfl

theorem lowerProgram_eq_ok {program : Json} {tree : Graph} :
    (lowerProgram l p program).outcome = .ok tree ↔ program.tree? = some tree := by
  rw [← lowerProgram_result_eq, Traced.result_eq_some]

theorem arg?_arr (items : List Json) :
    arg? (.arr items) = (block? (.arr items)).map fun b => .block [b] := by
  simp only [arg?, block?, lowerArgument, lowerOperation, Traced.result_bind, Traced.result_pure]
  exact Option.map_eq_bind.symm

theorem block?_plain (h : IsPlainTag tag) (fields : List Json) :
    block? (.arr (.str tag :: fields)) =
      (fields.mapM arg?).map fun args => .mk .null tag (.list args) [] := by
  simp only [block?, lowerOperation, lowerItems_plain h, Traced.result_bind, Traced.result_pure,
    lowerArguments_result_eq]
  exact Option.map_eq_bind.symm

theorem block?_monitor (h : Operation.ofTag? tag = some .waitForMonitor) (fields : List Json) :
    block? (.arr (.str tag :: fields)) =
      match fields with
      | .obj descriptor :: _ => some (.mk .null tag (.monitor descriptor) [])
      | _ => none := by
  simp only [block?, lowerOperation, lowerItems, h]
  rcases fields with _ | ⟨_ | _ | _ | _ | _ | _ | _, rest⟩ <;> rfl

theorem block?_call (h : Operation.ofTag? tag = some .callService) (fields : List Json) :
    block? (.arr (.str tag :: fields)) =
      match fields with
      | .obj call :: _ =>
        (callValues? call).map fun values =>
          .mk .null tag (.call (fieldOrNull call "service_id") (fieldOrNull call "service_action")
            values) []
      | _ => none := by
  simp only [block?, lowerOperation, lowerItems, h]
  rcases fields with _ | ⟨_ | _ | _ | _ | _ | _ | call, rest⟩ <;> try rfl
  simp only [lowerCall, Traced.result_bind, Traced.result_pure, callValues?]
  exact Option.map_eq_bind.symm

theorem block?_conditional (h : Operation.ofTag? tag = some .ifElse) (fields : List Json) :
    block? (.arr (.str tag :: fields)) =
      match fields with
      | [] => none
      | condition :: branches =>
        if 2 < branches.length then none
        else (branches.mapM body?).bind fun contents =>
          (arg? condition).map fun arg => .mk .null tag (.list [arg]) (withElse contents) := by
  simp only [block?, lowerOperation, lowerItems, h]
  rcases fields with _ | ⟨condition, branches⟩
  · rfl
  have hc := lowerArgument_result (allPlaceless [condition]) 0 0 (Path.top.args.index 0) .top
  simp only [lowerConditional]
  split
  · rfl
  · simp only [Traced.result_bind, lowerBodies_result_eq, hc, Traced.result_pure, arg?,
      Option.map_eq_bind, Function.comp_def]

theorem block?_fork (h : Operation.ofTag? tag = some .forkExecution) (fields : List Json) :
    block? (.arr (.str tag :: fields)) =
      match fields with
      | [] => some (.mk .null tag (.list []) [])
      | [.arr args] => (args.mapM arg?).map fun args => .mk .null tag (.list args) []
      | .arr args :: .arr paths :: _ =>
        (paths.mapM body?).bind fun contents =>
          (args.mapM arg?).map fun args => .mk .null tag (.list args) contents
      | _ => none := by
  simp only [block?, lowerOperation, lowerItems, h]
  rcases fields with _ | ⟨_ | _ | _ | _ | _ | args | _, rest⟩ <;> try rfl
  rcases rest with _ | ⟨_ | _ | _ | _ | _ | paths | _, rest⟩ <;> try rfl
  · simp only [lowerFork, Traced.result_bind, result_checkPaths, Traced.result_pure,
      lowerArguments_result_eq, Option.bind_some, Option.map_eq_bind, Function.comp_def]
  · simp only [lowerFork, Traced.result_bind, result_checkPaths, Traced.result_pure,
      lowerArguments_result_eq, lowerBodies_result_eq, Option.bind_some, Option.map_eq_bind,
      Function.comp_def]

theorem callValues?_cons (name : String) (v : Json) (rest : List (String × Json)) :
    callValues? ((name, v) :: rest) =
      if name = "service_call_values" then
        match v with
        | .arr items => items.mapM arg?
        | v => if v.truthy then none else some []
      else callValues? rest := by
  cases v with
  | arr items =>
    simp only [callValues?, lowerCallValues]
    split
    · exact lowerArguments_result_eq items
    · rfl
  | _ =>
    simp only [callValues?, lowerCallValues]
    split
    · split <;> rfl
    · rfl

/-- Only arrays with a tag in front become blocks. -/
theorem block?_eq_some {v : Json} {b : Block} (h : block? v = some b) :
    ∃ tag fields, v = .arr (.str tag :: fields) := by
  rcases v with _ | _ | _ | _ | _ | items | _
  case arr =>
    rcases items with _ | ⟨_ | _ | _ | _ | tag | _ | _, fields⟩
    case cons.str => exact ⟨tag, fields, rfl⟩
    all_goals simp [block?, lowerOperation, lowerItems] at h
  all_goals simp [block?, lowerOperation] at h

end BlockFlow
