import Mathlib
import BlockFlow.Path
import BlockFlow.Proofs.Graph.RoundTrip

/-! Where a path leads in the JSON form of a graph. -/

namespace BlockFlow

namespace Json

/-- The part of a value that one step leads to. -/
def step? : Step → Json → Option Json
  | .args, .obj fields => fields.lookup "args"
  | .callValues, .obj fields => fields.lookup "service_call_values"
  | .value, .obj fields => fields.lookup "value"
  | .contents, .obj fields => fields.lookup "contents"
  | .index i, .arr items => items[i]?
  | _, _ => none

/-- The part of a value that steps lead to, one after another. -/
def at? : List Step → Json → Option Json
  | [], v => some v
  | step :: rest, v => (v.step? step).bind (at? rest)

theorem at?_append (xs ys : List Step) (v : Json) :
    v.at? (xs ++ ys) = (v.at? xs).bind (at? ys) := by
  induction xs generalizing v with
  | nil => rfl
  | cons step rest ih =>
    rw [List.cons_append, at?, at?, Option.bind_assoc]
    exact Option.bind_congr fun part _ => ih part

/-- A path from the top of a document leads to this part of it. -/
def Leads (document : Json) (path : Path) (part : Json) : Prop :=
  document.at? path.steps = some part

/-- A path leads to an array that has these items from a position on. -/
def LeadsFrom (document : Json) (path : Path) (i : Nat) (rest : List Json) : Prop :=
  ∃ items, document.Leads path (.arr items) ∧ items.drop i = rest

variable {d v w : Json} {path : Path}

theorem leads_top (d : Json) : d.Leads .top d := rfl

theorem Leads.push {step : Step} (h : d.Leads path v) (hs : v.step? step = some w) :
    d.Leads (path.push step) w := by
  unfold Leads Path.push
  rw [at?_append, h, Option.bind_some, at?, hs]
  rfl

theorem Leads.items {items : List Json} (h : d.Leads path (.arr items)) :
    d.LeadsFrom path 0 items := ⟨items, h, rfl⟩

/-- From a position on there is the item at the position, and then the others. -/
theorem LeadsFrom.cons {i : Nat} {rest : List Json} (h : d.LeadsFrom path i (v :: rest)) :
    d.Leads (path.index i) v ∧ d.LeadsFrom path (i + 1) rest := by
  obtain ⟨items, hlead, hdrop⟩ := h
  constructor
  · apply hlead.push
    have hhead := congrArg List.head? hdrop
    rwa [List.head?_drop] at hhead
  · refine ⟨items, hlead, ?_⟩
    rw [← List.drop_drop, hdrop]
    rfl

end Json

variable {d : Json} {path : Path}

section

variable {id : Json} {type : String} {args : Args} {contents : List Content}
  (h : d.Leads path (Block.mk id type args contents).toJson)
include h

theorem leads_args : d.Leads path.args args.toJson := by
  apply h.push
  rw [Block.toJson_eq]
  exact lookup_args_blockFields ..

theorem leads_contents : d.LeadsFrom path.contents 0 (Content.listToJson contents) := by
  apply Json.Leads.items
  apply h.push
  rw [Block.toJson_eq]
  exact lookup_contents_blockFields ..

end

theorem leads_argList {args : List Arg} (h : d.Leads path (Args.list args).toJson) :
    d.LeadsFrom path 0 (Arg.listToJson args) := by
  rw [Args.toJson] at h
  exact h.items

theorem leads_callValues {serviceId serviceAction : Json} {values : List Arg}
    (h : d.Leads path (Args.call serviceId serviceAction values).toJson) :
    d.LeadsFrom (path.push .callValues) 0 (Arg.listToJson values) := by
  apply Json.Leads.items
  apply h.push
  rw [Args.toJson]
  rfl

theorem leads_value {value : List Block} (h : d.Leads path (Arg.block value).toJson) :
    d.LeadsFrom path.value 0 (Block.listToJson value) := by
  apply Json.Leads.items
  apply h.push
  rw [Arg.toJson]
  rfl

theorem leads_body {contents : List Content} (h : d.Leads path (Content.group contents).toJson) :
    d.LeadsFrom path.contents 0 (Content.listToJson contents) := by
  apply Json.Leads.items
  apply h.push
  rw [Content.toJson]
  rfl

end BlockFlow
