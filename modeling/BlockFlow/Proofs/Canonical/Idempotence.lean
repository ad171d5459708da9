import Mathlib
import BlockFlow.Proofs.Canonical.Outlines
import BlockFlow.Proofs.Canonical.Strictness
import BlockFlow.Proofs.Canonicalization

/-! Canonical forms are their own canonical forms, also when they are read back. -/

namespace BlockFlow

open Canonicalizing

/-! ### What has lost its ids -/

mutual

theorem Block.withoutIds_withoutIds : ∀ b : Block, b.withoutIds.withoutIds = b.withoutIds
  | .mk _ type args contents => by
    simp only [Block.withoutIds, Args.withoutIds_withoutIds args, Content.dropIds_dropIds contents]

theorem Args.withoutIds_withoutIds : ∀ args : Args, args.withoutIds.withoutIds = args.withoutIds
  | .list args => by simp only [Args.withoutIds, Arg.dropIds_dropIds args]
  | .monitor _ => rfl
  | .call _ _ values => by simp only [Args.withoutIds, Arg.dropIds_dropIds values]

theorem Arg.dropIds_dropIds : ∀ args : List Arg,
    Arg.dropIds (Arg.dropIds args) = Arg.dropIds args
  | [] => rfl
  | .constant _ :: rest => by simp only [Arg.dropIds, Arg.withoutIds, Arg.dropIds_dropIds rest]
  | .block value :: rest => by
    simp only [Arg.dropIds, Arg.withoutIds, Block.dropIds_dropIds value, Arg.dropIds_dropIds rest]

theorem Content.dropIds_dropIds : ∀ contents : List Content,
    Content.dropIds (Content.dropIds contents) = Content.dropIds contents
  | [] => rfl
  | .block b :: rest => by
    simp only [Content.dropIds, Content.withoutIds, Block.withoutIds_withoutIds b,
      Content.dropIds_dropIds rest]
  | .group contents :: rest => by
    simp only [Content.dropIds, Content.withoutIds, Content.dropIds_dropIds contents,
      Content.dropIds_dropIds rest]

theorem Block.dropIds_dropIds : ∀ blocks : List Block,
    Block.dropIds (Block.dropIds blocks) = Block.dropIds blocks
  | [] => rfl
  | b :: rest => by
    simp only [Block.dropIds, Block.withoutIds_withoutIds b, Block.dropIds_dropIds rest]

end

/-! ### The second pass over arguments -/

/-- The table of a graph without ids. -/
def noTypes (_ : String) : Option String := none

theorem resolveReferences_noTypes (type : String) (args : Args) :
    resolveReferences noTypes type args = args := by
  cases args with
  | list args =>
    rw [resolveReferences]
    split
    · congr 1
      apply List.map_id''
      intro arg
      cases arg <;> rfl
    · rfl
  | _ => rfl

/-- Names of types in place of ids are no ids, so that they are kept. -/
theorem withoutIds_resolveReferences {typeOf : String → Option String} {type : String}
    {args : Args} (h : args.withoutIds = args) :
    (resolveReferences typeOf type args).withoutIds = resolveReferences typeOf type args := by
  cases args with
  | list args =>
    rw [resolveReferences]
    split
    · rw [Args.withoutIds, Args.list.injEq] at h ⊢
      induction args with
      | nil => rfl
      | cons arg rest ih =>
        rw [Arg.dropIds, List.cons.injEq] at h
        cases arg <;> simp_all [Arg.dropIds, Arg.withoutIds]
    · exact h
  | _ => exact h

theorem sortArgs_sortArgs (args : Args) : sortArgs (sortArgs args) = sortArgs args := by
  cases args with
  | list args => simp only [sortArgs, sortByText_sortByText]
  | _ => rfl

theorem dropDefaultExit_dropDefaultExit (args : Args) :
    dropDefaultExit (dropDefaultExit args) = dropDefaultExit args := by
  cases args with
  | list args => simp [dropDefaultExit]
  | _ => rfl

section

variable (strict : Bool)

/-- A block that a pass without a table leaves as it is, wherever it stands. -/
def Block.Settled (b : Block) : Prop :=
  ∀ path, (canonicalBlock strict noTypes path b).result = some b

def Content.Settled : Content → Prop
  | .block b => b.Settled strict
  | .group contents =>
    ∀ path i, (canonicalContents strict noTypes path i contents).result = some contents

def Arg.Settled : Arg → Prop
  | .constant _ => True
  | .block value => ∀ path i, (canonicalBlocks strict noTypes path i value).result = some value

/-- Arguments that are settled where lists are made canonical. -/
def Args.Settled : Args → Prop
  | .list args => ∀ arg ∈ args, arg.Settled strict
  | args => args.withoutIds = args

/-- Arguments that are settled where the values of service calls are made canonical. -/
def Args.CallSettled : Args → Prop
  | .call _ _ values => ∀ arg ∈ values, arg.Settled strict
  | args => args.withoutIds = args

end

variable {strict : Bool}

section

variable (path : Path) (i : Nat)

theorem canonicalBlocks_of_settled {blocks : List Block} (h : ∀ b ∈ blocks, b.Settled strict) :
    (canonicalBlocks strict noTypes path i blocks).result = some blocks := by
  induction blocks generalizing i with
  | nil => simp [canonicalBlocks]
  | cons b rest ih =>
    obtain ⟨hb, hrest⟩ := List.forall_mem_cons.mp h
    simp [canonicalBlocks, hb (path.index i), ih (i + 1) hrest]

theorem canonicalContents_of_settled {contents : List Content}
    (h : ∀ c ∈ contents, c.Settled strict) :
    (canonicalContents strict noTypes path i contents).result = some contents := by
  induction contents generalizing i with
  | nil => simp [canonicalContents]
  | cons c rest ih =>
    obtain ⟨hc, hrest⟩ := List.forall_mem_cons.mp h
    cases c with
    | block b => simp [canonicalContents, hc (path.index i), ih (i + 1) hrest]
    | group contents =>
      simp [canonicalContents, hc (path.index i).contents 0, ih (i + 1) hrest]

theorem canonicalArgList_of_settled {args : List Arg} (h : ∀ arg ∈ args, arg.Settled strict) :
    (canonicalArgList strict noTypes path i args).result = some args := by
  induction args generalizing i with
  | nil => simp [canonicalArgList]
  | cons arg rest ih =>
    obtain ⟨harg, hrest⟩ := List.forall_mem_cons.mp h
    cases arg with
    | constant value => simp [canonicalArgList, ih (i + 1) hrest]
    | block value => simp [canonicalArgList, harg (path.index i).value 0, ih (i + 1) hrest]

theorem canonicalArgs_of_settled {args : Args} (h : args.Settled strict) :
    (canonicalArgs strict noTypes path args).result = some args := by
  cases args with
  | list args => simp [canonicalArgs_list, canonicalArgList_of_settled path.args 0 h]
  | monitor descriptor => simp [canonicalArgs_monitor]
  | call serviceId serviceAction values =>
    rw [canonicalArgs_call, Traced.result_pure]
    exact congrArg some h

theorem canonicalCall_of_settled {args : Args} (h : args.CallSettled strict) :
    (canonicalCall strict noTypes path args).result = some args := by
  cases args with
  | list args =>
    rw [canonicalCall_list, Traced.result_pure]
    exact congrArg some h
  | monitor descriptor => simp [canonicalCall_monitor]
  | call serviceId serviceAction values =>
    simp [canonicalCall_call, canonicalArgList_of_settled path.callValues 0 h]

end

theorem Args.Settled.resolveReferences {typeOf : String → Option String} {type : String}
    {args : Args} (h : args.Settled strict) :
    (resolveReferences typeOf type args).Settled strict := by
  cases args with
  | list args =>
    rw [Canonicalizing.resolveReferences]
    split
    · intro arg harg
      obtain ⟨original, ho, rfl⟩ := List.mem_map.mp harg
      cases original with
      | constant value => trivial
      | block value => exact h _ ho
    · exact h
  | _ => exact h

theorem Args.Settled.sortArgs {args : Args} (h : args.Settled strict) :
    (sortArgs args).Settled strict := by
  cases args with
  | list args =>
    intro arg harg
    exact h arg ((sortByText_perm Arg.toJson args).mem_iff.mp harg)
  | _ => exact h

theorem Args.Settled.dropDefaultExit {args : Args} (h : args.Settled strict) :
    (dropDefaultExit args).Settled strict := by
  cases args with
  | list args =>
    intro arg harg
    exact h arg (List.mem_filter.mp harg).1
  | _ => exact h

/-! ### The second pass over blocks -/

section

variable {type : String} {args : Args} {contents : List Content}

theorem Block.settled_of_stripped (ht : Treatment.ofTag type = .stripped)
    (hargs : args.withoutIds = args) (hcontents : Content.dropIds contents = contents) :
    (Block.mk .null type args contents).Settled strict := by
  intro path
  simp [canonicalBlock, ht, hargs, hcontents, resolveReferences_noTypes]

theorem Block.settled_of_ordered (ht : Treatment.ofTag type = .ordered)
    (hargs : args.Settled strict) (hcontents : ∀ c ∈ contents, c.Settled strict) :
    (Block.mk .null type args contents).Settled strict := by
  intro path
  simp [canonicalBlock, ht, canonicalArgs_of_settled path hargs,
    canonicalContents_of_settled path.contents 0 hcontents, resolveReferences_noTypes]

theorem Block.settled_of_serviceCall (ht : Treatment.ofTag type = .serviceCall)
    (hargs : args.CallSettled strict) (hcontents : Content.dropIds contents = contents) :
    (Block.mk .null type args contents).Settled strict := by
  intro path
  simp [canonicalBlock, ht, canonicalCall_of_settled path hargs, hcontents]

theorem Block.settled_of_commutative (ht : Treatment.ofTag type = .commutative)
    (hargs : args.Settled strict) (hsorted : sortArgs args = args)
    (hcontents : Content.dropIds contents = contents) :
    (Block.mk .null type args contents).Settled strict := by
  intro path
  simp [canonicalBlock, ht, canonicalArgs_of_settled path hargs, hsorted, hcontents]

theorem Block.settled_of_fork (ht : Treatment.ofTag type = .fork) (hargs : args.Settled strict)
    (hdropped : dropDefaultExit args = args) (hcontents : ∀ c ∈ contents, c.Settled strict)
    (hsorted : sortByText Content.toJson contents = contents) :
    (Block.mk .null type args contents).Settled strict := by
  intro path
  simp [canonicalBlock, ht, canonicalArgs_of_settled path hargs, hdropped,
    canonicalContents_of_settled path.contents 0 hcontents, hsorted]

theorem Block.settled_of_unknown (ht : Treatment.ofTag type = .unknown)
    (hargs : args.withoutIds = args) (hcontents : Content.dropIds contents = contents) :
    (Block.mk .null type args contents).Settled false := by
  intro path
  simp [canonicalBlock, ht, hargs, hcontents]

end

/-! ### The first pass settles what it makes -/

section

variable {typeOf : String → Option String}

mutual

theorem canonicalBlock_settles : ∀ (b : Block) {path : Path} {c : Block},
    (canonicalBlock strict typeOf path b).result = some c → c.Settled strict
  | .mk id type args contents, path, c, h => by
    have hbare := Content.dropIds_dropIds contents
    rw [canonicalBlock] at h
    -- the type stays, so that the second pass treats the form as the first one treated the block
    cases ht : Treatment.ofTag type with
    | stripped =>
      simp only [ht, Traced.result_pure, Option.some.injEq] at h
      subst h
      exact Block.settled_of_stripped ht (withoutIds_resolveReferences args.withoutIds_withoutIds)
        hbare
    | ordered =>
      simp only [ht, Traced.result_bind_eq_some, Traced.result_pure, Option.some.injEq] at h
      obtain ⟨args', hargs, contents', hcontents, rfl⟩ := h
      exact Block.settled_of_ordered ht (canonicalArgs_settles args hargs).resolveReferences
        (canonicalContents_settles contents hcontents)
    | serviceCall =>
      simp only [ht, Traced.result_bind_eq_some, Traced.result_pure, Option.some.injEq] at h
      obtain ⟨args', hargs, rfl⟩ := h
      exact Block.settled_of_serviceCall ht (canonicalCall_settles args hargs) hbare
    | commutative =>
      simp only [ht, Traced.result_bind_eq_some, Traced.result_pure, Option.some.injEq] at h
      obtain ⟨args', hargs, rfl⟩ := h
      exact Block.settled_of_commutative ht (canonicalArgs_settles args hargs).sortArgs
        (sortArgs_sortArgs args') hbare
    | fork =>
      simp only [ht, Traced.result_bind_eq_some, Traced.result_pure, Option.some.injEq] at h
      obtain ⟨args', hargs, paths, hpaths, rfl⟩ := h
      refine Block.settled_of_fork ht (canonicalArgs_settles args hargs).dropDefaultExit
        (dropDefaultExit_dropDefaultExit args') ?_ (sortByText_sortByText Content.toJson paths)
      intro c hc
      exact canonicalContents_settles contents hpaths c ((sortByText_perm _ paths).mem_iff.mp hc)
    | unknown =>
      cases strict with
      | true => simp [ht] at h
      | false =>
        simp only [ht, Bool.false_eq_true, if_false, Traced.result_bind, Traced.result_emit,
          Traced.result_pure, Option.bind_some, Option.some.injEq] at h
        subst h
        exact Block.settled_of_unknown ht args.withoutIds_withoutIds hbare

theorem canonicalArgs_settles : ∀ (args : Args) {path : Path} {args' : Args},
    (canonicalArgs strict typeOf path args).result = some args' → args'.Settled strict
  | .list args, path, args', h => by
    rw [canonicalArgs_list, Traced.result_map, Option.map_eq_some_iff] at h
    obtain ⟨listed, hlisted, rfl⟩ := h
    exact canonicalArgList_settles args hlisted
  | .monitor descriptor, path, args', h => by
    rw [canonicalArgs_monitor, Traced.result_pure, Option.some.injEq] at h
    subst h
    rfl
  | .call serviceId serviceAction values, path, args', h => by
    rw [canonicalArgs_call, Traced.result_pure, Option.some.injEq] at h
    subst h
    exact Args.withoutIds_withoutIds (.call serviceId serviceAction values)

theorem canonicalCall_settles : ∀ (args : Args) {path : Path} {args' : Args},
    (canonicalCall strict typeOf path args).result = some args' → args'.CallSettled strict
  | .list args, path, args', h => by
    rw [canonicalCall_list, Traced.result_pure, Option.some.injEq] at h
    subst h
    exact Args.withoutIds_withoutIds (.list args)
  | .monitor descriptor, path, args', h => by
    rw [canonicalCall_monitor, Traced.result_pure, Option.some.injEq] at h
    subst h
    rfl
  | .call serviceId serviceAction values, path, args', h => by
    rw [canonicalCall_call, Traced.result_map, Option.map_eq_some_iff] at h
    obtain ⟨listed, hlisted, rfl⟩ := h
    exact canonicalArgList_settles values hlisted

theorem canonicalArgList_settles : ∀ (args : List Arg) {path : Path} {i : Nat} {listed : List Arg},
    (canonicalArgList strict typeOf path i args).result = some listed →
      ∀ arg ∈ listed, arg.Settled strict
  | [], path, i, listed, h => by
    rw [canonicalArgList, Traced.result_pure, Option.some.injEq] at h
    subst h
    simp
  | .constant value :: rest, path, i, listed, h => by
    simp only [canonicalArgList, Traced.result_bind_eq_some, Traced.result_pure,
      Option.some.injEq] at h
    obtain ⟨others, hothers, rfl⟩ := h
    exact List.forall_mem_cons.mpr ⟨trivial, canonicalArgList_settles rest hothers⟩
  | .block value :: rest, path, i, listed, h => by
    simp only [canonicalArgList, Traced.result_bind_eq_some, Traced.result_pure,
      Option.some.injEq] at h
    obtain ⟨blocks, hblocks, others, hothers, rfl⟩ := h
    refine List.forall_mem_cons.mpr ⟨?_, canonicalArgList_settles rest hothers⟩
    intro place j
    exact canonicalBlocks_of_settled place j (canonicalBlocks_settles value hblocks)

theorem canonicalContents_settles : ∀ (contents : List Content) {path : Path} {i : Nat}
    {made : List Content}, (canonicalContents strict typeOf path i contents).result = some made →
      ∀ c ∈ made, c.Settled strict
  | [], path, i, made, h => by
    rw [canonicalContents, Traced.result_pure, Option.some.injEq] at h
    subst h
    simp
  | .block b :: rest, path, i, made, h => by
    simp only [canonicalContents, Traced.result_bind_eq_some, Traced.result_pure,
      Option.some.injEq] at h
    obtain ⟨form, hform, others, hothers, rfl⟩ := h
    exact List.forall_mem_cons.mpr
      ⟨canonicalBlock_settles b hform, canonicalContents_settles rest hothers⟩
  | .group contents :: rest, path, i, made, h => by
    simp only [canonicalContents, Traced.result_bind_eq_some, Traced.result_pure,
      Option.some.injEq] at h
    obtain ⟨body, hbody, others, hothers, rfl⟩ := h
    refine List.forall_mem_cons.mpr ⟨?_, canonicalContents_settles rest hothers⟩
    intro place j
    exact canonicalContents_of_settled place j (canonicalContents_settles contents hbody)

theorem canonicalBlocks_settles : ∀ (blocks : List Block) {path : Path} {i : Nat}
    {made : List Block}, (canonicalBlocks strict typeOf path i blocks).result = some made →
      ∀ b ∈ made, b.Settled strict
  | [], path, i, made, h => by
    rw [canonicalBlocks, Traced.result_pure, Option.some.injEq] at h
    subst h
    simp
  | b :: rest, path, i, made, h => by
    simp only [canonicalBlocks, Traced.result_bind_eq_some, Traced.result_pure,
      Option.some.injEq] at h
    obtain ⟨form, hform, others, hothers, rfl⟩ := h
    exact List.forall_mem_cons.mpr
      ⟨canonicalBlock_settles b hform, canonicalBlocks_settles rest hothers⟩

end

end

/-! ### Graphs -/

theorem passesOn_noId : PassesOn (fun _ => True) (fun form => form.id = .null) := by
  intro b form hform
  exact ⟨fun _ => trivial, fun _ => hform.noId⟩

theorem Args.readsBack_frame (args : Args) (type : String) :
    args.frame.ReadsBack type ↔ args.ReadsBack type := by
  cases args <;> exact Iff.rfl

/-- A form can be read back if the block can that it comes from. -/
theorem passesOn_readsBack : PassesOn Block.ReadsBack Block.ReadsBack := by
  intro b form hform
  have hargs : form.args.ReadsBack form.type ↔ b.args.ReadsBack b.type := by
    rw [← form.args.readsBack_frame, ← b.args.readsBack_frame, hform.frame, hform.type_eq]
  have htyped : (∀ x ∈ Content.members form.contents, x.type ≠ "") ↔
      ∀ x ∈ Content.members b.contents, x.type ≠ "" := by
    have hmem := hform.members.mem_iff (a := "")
    simp only [List.mem_map] at hmem
    constructor
    · intro h x hx he
      obtain ⟨y, hy, hye⟩ := hmem.mpr ⟨x, hx, he⟩
      exact h y hy hye
    · intro h x hx he
      obtain ⟨y, hy, hye⟩ := hmem.mp ⟨x, hx, he⟩
      exact h y hy hye
  exact ⟨fun h => ⟨hargs.mp h.args, htyped.mp h.typed⟩,
    fun h => ⟨hargs.mpr h.args, htyped.mpr h.typed⟩⟩

variable {g c : Graph}

/-- A canonical form is the lenient one, whichever way it was made. -/
theorem Graph.lenient_of_canonical (h : (g.canonical strict).outcome = .ok c) :
    (g.canonical false).outcome = .ok c := by
  cases strict with
  | false => exact h
  | true =>
    have hagree := Graph.canonical_agree (Graph.keyed_of_canonical h)
    generalize g.canonical true = strictly at hagree h
    generalize g.canonical false = leniently at hagree ⊢
    cases hagree with
    | same form => exact h
    | stopped path tag rest outcome => cases h

theorem Graph.id_of_canonical (h : (g.canonical strict).outcome = .ok c) :
    ∀ b ∈ c.blocks, b.id = .null := by
  apply (forall_canonical_iff passesOn_noId (Graph.lenient_of_canonical h)).mpr
  intro b _
  trivial

/-- The canonical form of a graph that was read from a document can be read back. -/
theorem Graph.readsBack_of_canonical {d : Json} (hd : Graph.ofJson d = .ok g)
    (h : (g.canonical strict).outcome = .ok c) : Graph.ofJson c.toJson = .ok c := by
  apply c.readsBack_iff.mpr
  apply (forall_canonical_iff passesOn_readsBack (Graph.lenient_of_canonical h)).mpr
  obtain ⟨items, rfl, hread⟩ := Graph.ofJson_eq_ok.mp hd
  exact readsBack_of_readBlocks (v := .arr items) (fun item _ => item.readsSoundly) hread

/-- Settled blocks without ids are a graph that a pass leaves as it is. -/
theorem Graph.canonical_of_settled (hids : ∀ b ∈ c.blocks, b.id = .null)
    (h : ∀ b ∈ c, b.Settled strict) : (c.canonical strict).outcome = .ok c := by
  have hkeyed : c.Keyed := by
    intro b hb _
    simp [hids b hb, Json.key?]
  have htypes : c.typeAt = noTypes := by
    funext id
    apply typeOfKey_eq_none
    intro b hb
    simp [hids b hb, Json.key?]
  rw [← Traced.result_eq_some, Graph.canonical_eq hkeyed, htypes]
  exact canonicalBlocks_of_settled .top 0 h

theorem Graph.settled_of_canonical (h : (g.canonical strict).outcome = .ok c) :
    ∀ b ∈ c, b.Settled strict := by
  have hkeyed := Graph.keyed_of_canonical h
  rw [← Traced.result_eq_some, Graph.canonical_eq hkeyed] at h
  exact canonicalBlocks_settles g h

/-- The canonical form of a graph that was read from any document is its own canonical form, taken
as it is or read from its JSON form, and no block in it has an id. -/
theorem canonical_idempotent {d : Json} (hd : Graph.ofJson d = .ok g)
    (hc : (g.canonical strict).outcome = .ok c) :
    (c.canonical strict).outcome = .ok c ∧
      (∀ w, (Work.canonicalizeForm (some strict) c.toJson).Returns w c) ∧
      ∀ b ∈ c.blocks, b.id = .null := by
  have hids := Graph.id_of_canonical hc
  have hagain := Graph.canonical_of_settled hids (Graph.settled_of_canonical hc)
  refine ⟨hagain, ?_, hids⟩
  intro w
  exact Work.canonicalizeForm_returns w ⟨c, Graph.readsBack_of_canonical hd hc, hagain⟩

/-- A fork whose paths and operands are out of order, with references to it from a join and from a
nested jump that is not entered, and an operation that is not known. -/
def tangledDocument : Json :=
  .arr [
    .obj [("id", .str "f"), ("type", .str "op_fork_execution"),
      ("args", .arr [.obj [("type", .str "constant"), ("value", .str "exit-when-all-completed")]]),
      ("contents", .arr [
        .obj [("contents", .arr [.obj [("id", .int 2), ("type", .str "operator_and"),
          ("args", .arr [.obj [("type", .str "constant"), ("value", .int 7)],
            .obj [("type", .str "constant"), ("value", .int 3)]])]])],
        .obj [("contents", .arr [.obj [("type", .str "jump_to_block"),
          ("args", .arr [.obj [("type", .str "constant"), ("value", .str "j")]])]])]])],
    .obj [("id", .str "j"), ("type", .str "trigger_when_all_completed"),
      ("args", .arr [.obj [("type", .str "constant"), ("value", .str "f")]])],
    .obj [("type", .str "flow_last_value"), ("args", .arr [.obj [("type", .str "block"),
      ("value", .arr [.obj [("id", .bool true), ("type", .str "jump_to_block"),
        ("args", .arr [.obj [("type", .str "constant"), ("value", .str "f")]])]])]])],
    .obj [("id", .float .nan), ("type", .str "mystery"), ("args", .obj [("id", .str "f")])]]

def tangledGraph : Graph :=
  [.mk (.str "f") "op_fork_execution" (.list [.constant "exit-when-all-completed"])
      [.group [.block (.mk (.int 2) "operator_and" (.list [.constant "7", .constant "3"]) [])],
        .group [.block (.mk .null "jump_to_block" (.list [.constant "j"]) [])]],
    .mk (.str "j") "trigger_when_all_completed" (.list [.constant "f"]) [],
    .mk .null "flow_last_value"
      (.list [.block [.mk (.bool true) "jump_to_block" (.list [.constant "f"]) []]]) [],
    .mk (.float .nan) "mystery" (.monitor [("id", .str "f")]) []]

theorem tangledGraph_idempotent :
    Graph.ofJson tangledDocument = .ok tangledGraph ∧
      ∃ c, (tangledGraph.canonical false).outcome = .ok c ∧ (c.canonical false).outcome = .ok c ∧
        (∀ w, (Work.canonicalizeForm (some false) c.toJson).Returns w c) ∧
        ∀ b ∈ c.blocks, b.id = .null := by
  have hread : Graph.ofJson tangledDocument = .ok tangledGraph := rfl
  have hkeyed : tangledGraph.Keyed :=
    exists_blockKeys_iff.mp ⟨[.str "f", .int 2, .str "j", .int 1, .float .nan], rfl⟩
  have hform := Graph.canonical_outcome hkeyed
  exact ⟨hread, _, hform, canonical_idempotent hread hform⟩

end BlockFlow
