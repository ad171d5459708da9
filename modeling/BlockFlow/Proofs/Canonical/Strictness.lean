import Mathlib
import BlockFlow.Proofs.Canonical.Forms
import BlockFlow.Proofs.Graph.Places

/-! Strict and lenient canonicalization. They visit the same blocks in the same order: where the
lenient one warns for the first time, the strict one stops. -/

namespace BlockFlow

open Canonicalizing

section

variable (strict : Bool) (typeOf : String → Option String) (path : Path)

theorem canonicalArgs_list (args : List Arg) :
    canonicalArgs strict typeOf path (.list args) =
      Args.list <$> canonicalArgList strict typeOf path.args 0 args := by
  rw [canonicalArgs, bind_pure_comp]

theorem canonicalArgs_monitor (descriptor : List (String × Json)) :
    canonicalArgs strict typeOf path (.monitor descriptor) = pure (.monitor descriptor) := by
  simp [canonicalArgs, Args.withoutIds]

theorem canonicalArgs_call (serviceId serviceAction : Json) (values : List Arg) :
    canonicalArgs strict typeOf path (.call serviceId serviceAction values) =
      pure (.call serviceId serviceAction (Arg.dropIds values)) := by
  simp [canonicalArgs, Args.withoutIds]

theorem canonicalCall_list (args : List Arg) :
    canonicalCall strict typeOf path (.list args) = pure (.list (Arg.dropIds args)) := by
  simp [canonicalCall, Args.withoutIds]

theorem canonicalCall_monitor (descriptor : List (String × Json)) :
    canonicalCall strict typeOf path (.monitor descriptor) = pure (.monitor descriptor) := by
  simp [canonicalCall, Args.withoutIds]

theorem canonicalCall_call (serviceId serviceAction : Json) (values : List Arg) :
    canonicalCall strict typeOf path (.call serviceId serviceAction values) =
      Args.call serviceId serviceAction <$>
        canonicalArgList strict typeOf path.callValues 0 values := by
  rw [canonicalCall, bind_pure_comp]

end

/-! ### Warnings name blocks -/

/-- A warning of an unknown operation whose path leads to a block of this type. -/
def Warning.Names (d : Json) (w : Warning) : Prop :=
  ∃ b : Block, w = .unknownOperation w.path b.type ∧ d.Leads w.path b.toJson

/-- All warnings name blocks of a document. -/
def Canonicalizing.WarnsOf {α : Type} (d : Json) (x : Canonicalizing α) : Prop :=
  ∀ w ∈ x.trace, w.Names d

section

variable {α β : Type} {d : Json}

theorem warnsOf_pure (a : α) : WarnsOf d (pure a : Canonicalizing α) := by
  intro w hw
  cases hw

theorem warnsOf_fail (e : CanonicalError) : WarnsOf d (.fail e : Canonicalizing α) := by
  intro w hw
  cases hw

theorem warnsOf_emit {w : Warning} (h : w.Names d) : WarnsOf d (Traced.emit w) := by
  intro w' hw
  obtain rfl := List.mem_singleton.mp hw
  exact h

theorem Canonicalizing.WarnsOf.bind {x : Canonicalizing α} {f : α → Canonicalizing β}
    (hx : WarnsOf d x) (hf : ∀ a, WarnsOf d (f a)) : WarnsOf d (x >>= f) := by
  intro w hw
  obtain ⟨trace, _ | a⟩ := x
  · exact hx w hw
  · rcases List.mem_append.mp hw with hw | hw
    · exact hx w hw
    · exact hf a w hw

theorem Canonicalizing.WarnsOf.map {x : Canonicalizing α} (hx : WarnsOf d x) (f : α → β) :
    WarnsOf d (f <$> x) := by
  rw [← bind_pure_comp]
  exact hx.bind fun _ => warnsOf_pure _

end

section

variable {d : Json} {strict : Bool} {typeOf : String → Option String}

mutual

theorem canonicalBlock_warnsOf : ∀ (b : Block) {path : Path}, d.Leads path b.toJson →
    WarnsOf d (canonicalBlock strict typeOf path b)
  | .mk id type args contents, path, h => by
    have hargs := canonicalArgs_warnsOf args (leads_args h)
    have hcall := canonicalCall_warnsOf args (leads_args h)
    have hcontents := canonicalContents_warnsOf contents (leads_contents h)
    rw [canonicalBlock]
    cases Treatment.ofTag type with
    | stripped => exact warnsOf_pure _
    | ordered => exact hargs.bind fun _ => hcontents.bind fun _ => warnsOf_pure _
    | serviceCall => exact hcall.bind fun _ => warnsOf_pure _
    | commutative => exact hargs.bind fun _ => warnsOf_pure _
    | fork => exact hargs.bind fun _ => hcontents.bind fun _ => warnsOf_pure _
    | unknown =>
      cases strict with
      | true => exact warnsOf_fail _
      | false => exact (warnsOf_emit ⟨_, rfl, h⟩).bind fun _ => warnsOf_pure _

theorem canonicalArgs_warnsOf : ∀ (args : Args) {path : Path}, d.Leads path.args args.toJson →
    WarnsOf d (canonicalArgs strict typeOf path args)
  | .list args, path, h => by
    rw [canonicalArgs_list]
    exact (canonicalArgList_warnsOf args (leads_argList h)).map _
  | .monitor _, path, h => by
    rw [canonicalArgs_monitor]
    exact warnsOf_pure _
  | .call _ _ _, path, h => by
    rw [canonicalArgs_call]
    exact warnsOf_pure _

theorem canonicalCall_warnsOf : ∀ (args : Args) {path : Path}, d.Leads path.args args.toJson →
    WarnsOf d (canonicalCall strict typeOf path args)
  | .list args, path, h => by
    rw [canonicalCall_list]
    exact warnsOf_pure _
  | .monitor _, path, h => by
    rw [canonicalCall_monitor]
    exact warnsOf_pure _
  | .call _ _ values, path, h => by
    rw [canonicalCall_call]
    exact (canonicalArgList_warnsOf values (leads_callValues h)).map _

theorem canonicalArgList_warnsOf : ∀ (args : List Arg) {path : Path} {i : Nat},
    d.LeadsFrom path i (Arg.listToJson args) →
      WarnsOf d (canonicalArgList strict typeOf path i args)
  | [], path, i, h => by
    rw [canonicalArgList]
    exact warnsOf_pure _
  | .constant _ :: rest, path, i, h => by
    rw [canonicalArgList]
    exact (canonicalArgList_warnsOf rest h.cons.2).bind fun _ => warnsOf_pure _
  | .block value :: rest, path, i, h => by
    rw [canonicalArgList]
    exact (canonicalBlocks_warnsOf value (leads_value h.cons.1)).bind fun _ =>
      (canonicalArgList_warnsOf rest h.cons.2).bind fun _ => warnsOf_pure _

theorem canonicalContents_warnsOf : ∀ (contents : List Content) {path : Path} {i : Nat},
    d.LeadsFrom path i (Content.listToJson contents) →
      WarnsOf d (canonicalContents strict typeOf path i contents)
  | [], path, i, h => by
    rw [canonicalContents]
    exact warnsOf_pure _
  | .block b :: rest, path, i, h => by
    rw [canonicalContents]
    exact (canonicalBlock_warnsOf b h.cons.1).bind fun _ =>
      (canonicalContents_warnsOf rest h.cons.2).bind fun _ => warnsOf_pure _
  | .group contents :: rest, path, i, h => by
    rw [canonicalContents]
    exact (canonicalContents_warnsOf contents (leads_body h.cons.1)).bind fun _ =>
      (canonicalContents_warnsOf rest h.cons.2).bind fun _ => warnsOf_pure _

theorem canonicalBlocks_warnsOf : ∀ (blocks : List Block) {path : Path} {i : Nat},
    d.LeadsFrom path i (Block.listToJson blocks) →
      WarnsOf d (canonicalBlocks strict typeOf path i blocks)
  | [], path, i, h => by
    rw [canonicalBlocks]
    exact warnsOf_pure _
  | b :: rest, path, i, h => by
    rw [canonicalBlocks]
    exact (canonicalBlock_warnsOf b h.cons.1).bind fun _ =>
      (canonicalBlocks_warnsOf rest h.cons.2).bind fun _ => warnsOf_pure _

end

end

/-! ### The strict run follows the lenient one -/

/-- How a strict run compares with a lenient one: both give the same and warn of nothing, or the
strict one stops at the operation that the lenient one warns of first. -/
inductive Canonicalizing.Agree {α : Type} : Canonicalizing α → Canonicalizing α → Prop
  | same (a : α) : Agree (pure a) (pure a)
  | stopped (path : Path) (tag : String) (rest : List Warning)
      (outcome : Except CanonicalError α) :
      Agree (.fail (.unknownOperation tag)) ⟨.unknownOperation path tag :: rest, outcome⟩

section

variable {α β : Type}

theorem Canonicalizing.Agree.bind {x y : Canonicalizing α} {f g : α → Canonicalizing β}
    (h : Agree x y) (hf : ∀ a, Agree (f a) (g a)) : Agree (x >>= f) (y >>= g) := by
  cases h with
  | same a =>
    rw [pure_bind, pure_bind]
    exact hf a
  | stopped path tag rest outcome =>
    -- whatever the lenient run goes on to do, its first warning stays the first
    cases outcome with
    | error e => exact .stopped path tag rest (.error e)
    | ok a => exact .stopped path tag (rest ++ (g a).trace) (g a).outcome

theorem Canonicalizing.Agree.map {x y : Canonicalizing α} (h : Agree x y) (f : α → β) :
    Agree (f <$> x) (f <$> y) := by
  rw [← bind_pure_comp, ← bind_pure_comp]
  exact h.bind fun a => .same (f a)

end

section

variable {typeOf : String → Option String}

mutual

theorem canonicalBlock_agree : ∀ (b : Block) (path : Path),
    Agree (canonicalBlock true typeOf path b) (canonicalBlock false typeOf path b)
  | .mk id type args contents, path => by
    have hargs := canonicalArgs_agree args path
    have hcall := canonicalCall_agree args path
    have hcontents := canonicalContents_agree contents path.contents 0
    rw [canonicalBlock, canonicalBlock]
    cases Treatment.ofTag type with
    | stripped => exact .same _
    | ordered => exact hargs.bind fun _ => hcontents.bind fun _ => .same _
    | serviceCall => exact hcall.bind fun _ => .same _
    | commutative => exact hargs.bind fun _ => .same _
    | fork => exact hargs.bind fun _ => hcontents.bind fun _ => .same _
    | unknown => exact .stopped path type [] _

theorem canonicalArgs_agree : ∀ (args : Args) (path : Path),
    Agree (canonicalArgs true typeOf path args) (canonicalArgs false typeOf path args)
  | .list args, path => by
    rw [canonicalArgs_list, canonicalArgs_list]
    exact (canonicalArgList_agree args path.args 0).map _
  | .monitor _, path => by
    rw [canonicalArgs_monitor, canonicalArgs_monitor]
    exact .same _
  | .call _ _ _, path => by
    rw [canonicalArgs_call, canonicalArgs_call]
    exact .same _

theorem canonicalCall_agree : ∀ (args : Args) (path : Path),
    Agree (canonicalCall true typeOf path args) (canonicalCall false typeOf path args)
  | .list _, path => by
    rw [canonicalCall_list, canonicalCall_list]
    exact .same _
  | .monitor _, path => by
    rw [canonicalCall_monitor, canonicalCall_monitor]
    exact .same _
  | .call _ _ values, path => by
    rw [canonicalCall_call, canonicalCall_call]
    exact (canonicalArgList_agree values path.callValues 0).map _

theorem canonicalArgList_agree : ∀ (args : List Arg) (path : Path) (i : Nat),
    Agree (canonicalArgList true typeOf path i args) (canonicalArgList false typeOf path i args)
  | [], path, i => by
    rw [canonicalArgList, canonicalArgList]
    exact .same _
  | .constant _ :: rest, path, i => by
    rw [canonicalArgList, canonicalArgList]
    exact (canonicalArgList_agree rest path (i + 1)).bind fun _ => .same _
  | .block value :: rest, path, i => by
    rw [canonicalArgList, canonicalArgList]
    exact (canonicalBlocks_agree value (path.index i).value 0).bind fun _ =>
      (canonicalArgList_agree rest path (i + 1)).bind fun _ => .same _

theorem canonicalContents_agree : ∀ (contents : List Content) (path : Path) (i : Nat),
    Agree (canonicalContents true typeOf path i contents)
      (canonicalContents false typeOf path i contents)
  | [], path, i => by
    rw [canonicalContents, canonicalContents]
    exact .same _
  | .block b :: rest, path, i => by
    rw [canonicalContents, canonicalContents]
    exact (canonicalBlock_agree b (path.index i)).bind fun _ =>
      (canonicalContents_agree rest path (i + 1)).bind fun _ => .same _
  | .group contents :: rest, path, i => by
    rw [canonicalContents, canonicalContents]
    exact (canonicalContents_agree contents (path.index i).contents 0).bind fun _ =>
      (canonicalContents_agree rest path (i + 1)).bind fun _ => .same _

theorem canonicalBlocks_agree : ∀ (blocks : List Block) (path : Path) (i : Nat),
    Agree (canonicalBlocks true typeOf path i blocks) (canonicalBlocks false typeOf path i blocks)
  | [], path, i => by
    rw [canonicalBlocks, canonicalBlocks]
    exact .same _
  | b :: rest, path, i => by
    rw [canonicalBlocks, canonicalBlocks]
    exact (canonicalBlock_agree b (path.index i)).bind fun _ =>
      (canonicalBlocks_agree rest path (i + 1)).bind fun _ => .same _

end

end

/-! ### Graphs -/

variable {g : Graph}

theorem Graph.canonical_agree (hg : g.Keyed) : Agree (g.canonical true) (g.canonical false) := by
  rw [Graph.canonical_eq hg, Graph.canonical_eq hg]
  exact canonicalBlocks_agree g .top 0

theorem Graph.canonical_warnsOf {strict : Bool} (hg : g.Keyed) :
    WarnsOf g.toJson (g.canonical strict) := by
  rw [Graph.canonical_eq hg]
  exact canonicalBlocks_warnsOf g (g.toJson.leads_top.items)

/-- Whether a warning is one of an unknown operation. -/
def isUnknownOperation (w : Warning) : Bool := w.code == "UNKNOWN_OPERATION"

/-- Strict canonicalization fails at an unknown operation exactly if lenient canonicalization warns
of one. It then names the type of the block that the path of the first such warning leads to. Else
both give the same canonical form, and neither warns. -/
theorem strict_fails_iff_lenient_warns (hg : g.Keyed) :
    ((∃ tag, (g.canonical true).outcome = .error (.unknownOperation tag)) ↔
        ∃ w ∈ (g.canonical false).trace, isUnknownOperation w = true) ∧
      (∀ w, (g.canonical false).trace.find? isUnknownOperation = some w →
        ∃ b : Block, g.toJson.Leads w.path b.toJson ∧
          (g.canonical true).outcome = .error (.unknownOperation b.type)) ∧
      ((∀ w ∈ (g.canonical false).trace, isUnknownOperation w = false) →
        ∃ c, g.canonical true = ⟨[], .ok c⟩ ∧ g.canonical false = ⟨[], .ok c⟩) := by
  have hnames : WarnsOf g.toJson (g.canonical false) := Graph.canonical_warnsOf hg
  have hagree := Graph.canonical_agree hg
  generalize g.canonical true = strictly at hagree ⊢
  generalize g.canonical false = leniently at hagree hnames ⊢
  cases hagree with
  | same c =>
    refine ⟨⟨?_, ?_⟩, ?_, ?_⟩
    · rintro ⟨tag, ⟨⟩⟩
    · rintro ⟨w, ⟨⟩, _⟩
    · rintro w ⟨⟩
    · intro _
      exact ⟨c, rfl, rfl⟩
  | stopped path tag rest outcome =>
    have hcode : isUnknownOperation (.unknownOperation path tag) = true := by
      simp [isUnknownOperation, Warning.code]
    refine ⟨⟨?_, ?_⟩, ?_, ?_⟩
    · intro _
      exact ⟨_, List.mem_cons_self, hcode⟩
    · intro _
      exact ⟨tag, rfl⟩
    · intro w hw
      rw [List.find?_cons, hcode, Option.some.injEq] at hw
      subst hw
      obtain ⟨b, he, hlead⟩ := hnames _ List.mem_cons_self
      refine ⟨b, hlead, ?_⟩
      cases he
      rfl
    · intro hnone
      have hfalse := hnone _ List.mem_cons_self
      rw [hcode] at hfalse
      cases hfalse

/-- An unknown operation in an argument on the path of a fork, and another one behind the fork. -/
def hiddenOperation : Graph :=
  [.mk (.str "f") "op_fork_execution" (.list [.constant "exit-when-first-completed"])
      [.group [.block (.mk (.int 1) "operator_and"
        (.list [.constant "x", .block [.mk .null "mystery" (.list []) []]]) [])]],
    .mk (.bool true) "riddle" (.list []) []]

theorem hiddenOperation_fails :
    hiddenOperation.Keyed ∧
      (hiddenOperation.canonical true).outcome = .error (.unknownOperation "mystery") ∧
      ∃ (w : Warning) (b : Block), w.path.text = "[0].contents[0].contents[0].args[1].value[0]" ∧
        (hiddenOperation.canonical false).trace.find? isUnknownOperation = some w ∧
        hiddenOperation.toJson.Leads w.path b.toJson ∧
        (hiddenOperation.canonical true).outcome = .error (.unknownOperation b.type) := by
  have hkeyed : hiddenOperation.Keyed :=
    exists_blockKeys_iff.mp ⟨[.str "f", .int 1, .int 1], rfl⟩
  obtain ⟨-, hfirst, -⟩ := strict_fails_iff_lenient_warns hkeyed
  obtain ⟨b, hlead, hstrict⟩ := hfirst _ rfl
  exact ⟨hkeyed, rfl, _, b, by decide, rfl, hlead, hstrict⟩

end BlockFlow
