import Mathlib
import BlockFlow.Proofs.Compilation
import BlockFlow.Proofs.Graph.RoundTrip
import BlockFlow.Proofs.Linking.Verification
import BlockFlow.Proofs.Schema.Graphs

/-! Graphs as the compiler gives them out: which of them can be read back from their JSON form, and
which of them the schema accepts. -/

namespace BlockFlow

open Linking

variable {choice : Work.IdChoice} {linking : Bool} {w : Workspace} {program : Json} {g : Graph}

/-- What copies keep and linking primitives have, the blocks of a compiled graph have if those of
the program do. -/
theorem forall_compiled_iff {P : Block → Prop}
    (hc : ∀ b copy : Block, copy.CopyOf b → (P copy ↔ P b))
    (hp : ∀ (known : String → Prop) (b : Block), b.RefersTo known → P b)
    (h : (Work.compile choice linking program).Returns w g) :
    (∀ b ∈ g.blocks, P b) ↔ ∀ o ∈ program.operations, P o := by
  obtain ⟨tree, ht, ⟨_, rfl⟩ | ⟨_, s, k, _, _, hy⟩⟩ := compile_cases h
  · rw [Json.operations, ht]
  · have hl := (linkGraph_yields.mp hy).1.graph
    rw [Json.operations, ht]
    exact hl.blocks.forall_iff hc (hp _)

theorem lowered_of_mem_operations {o : Block} (ho : o ∈ program.operations) : o.Lowered := by
  unfold Json.operations at ho
  split at ho
  · next tree ht => exact isTree_of_tree? ht o ho
  · simp at ho

/-! ### Reading back -/

theorem Args.SameForm.readsBack_iff {args args' : Args} (h : args.SameForm args') (type : String) :
    args'.ReadsBack type ↔ args.ReadsBack type := by
  cases h <;> rfl

theorem Block.Lowered.readsBack {b : Block} (h : b.Lowered) : b.args.ReadsBack b.type := by
  have hs := h.shape
  generalize b.contents = contents at hs
  generalize b.args = args at hs ⊢
  generalize b.type = type at hs ⊢
  cases hs with
  | monitor descriptor => simp [Args.ReadsBack, Operation.tag]
  | call serviceId serviceAction values => rfl
  | _ => trivial

theorem compiled_args_readBack (h : (Work.compile choice linking program).Returns w g) :
    ∀ b ∈ g.blocks, b.args.ReadsBack b.type := by
  refine (forall_compiled_iff ?_ ?_ h).mpr ?_
  · intro b copy hc
    rw [hc.type_eq, hc.args.readsBack_iff]
  · intro known b hb
    obtain ⟨id, _, ha⟩ := hb.target
    rw [ha]
    trivial
  · intro o ho
    exact (lowered_of_mem_operations ho).readsBack

/-- A compiled graph is read back from its JSON form exactly if no block without a type is a member
of a sequence. Such blocks do no harm at the top and in arguments. -/
theorem compiled_reads_back_iff (h : (Work.compile choice linking program).Returns w g) :
    Graph.ofJson g.toJson = .ok g ↔
      ∀ b ∈ g.blocks, ∀ x ∈ Content.members b.contents, x.type ≠ "" := by
  rw [g.readsBack_iff]
  constructor
  · intro hr b hb
    exact (hr b hb).typed
  · intro ht b hb
    exact ⟨compiled_args_readBack h b hb, ht b hb⟩

def untaggedArgument : Json := .arr [.arr [.str "", .arr [.str "", .int 1]]]

def untaggedArgumentGraph : Graph :=
  [.mk (.str "b1") "" (.list [.block [.mk (.str "b2") "" (.list [.constant "1"]) []]]) []]

def untaggedPath : Json :=
  .arr [.arr [.str "op_fork_execution", .arr [], .arr [.arr [.arr [.str ""]]]]]

def untaggedPathTree : Graph :=
  [.mk .null "op_fork_execution" (.list [])
    [.group [.block (.mk .null "" (.list []) [])]]]

/-- Without a type a block is read back at the top and in an argument, and not in a path. -/
theorem untagged_reads_back :
    Graph.ofJson untaggedArgumentGraph.toJson = .ok untaggedArgumentGraph ∧
      Graph.ofJson untaggedPathTree.toJson ≠ .ok untaggedPathTree := by
  have hargument : (Work.compile .current true untaggedArgument).Returns (labelledWorkspace "b")
      untaggedArgumentGraph := ⟨_, rfl⟩
  have hpath : (Work.compile .current false untaggedPath).Returns (labelledWorkspace "b")
      untaggedPathTree := ⟨_, rfl⟩
  constructor
  · refine (compiled_reads_back_iff hargument).mpr ?_
    simp [untaggedArgumentGraph, Graph.blocks, Block.listBlocks, Block.blocks, Args.blocks,
      Arg.listBlocks, Content.listBlocks, Block.contents, Content.members]
  · intro hr
    have ht := (compiled_reads_back_iff hpath).mp hr _ List.mem_cons_self
    refine ht (.mk .null "" (.list []) []) ?_ rfl
    simp [Content.members, Block.contents]

/-! ### The schema -/

theorem Args.SameForm.representable_iff {args args' : Args} (h : args.SameForm args') :
    args'.Representable ↔ args.Representable := by
  cases h <;> rfl

theorem type_ne_empty_of_isLinkPrimitive {type : String} (h : isLinkPrimitive type = true) :
    type ≠ "" := by
  rintro rfl
  revert h
  decide

/-- Blocks have no id, or one that is a text and not empty. -/
theorem compiled_ids
    (hs : linking = true → ∃ label, w.strategyFor choice = .ok (.sequential label))
    (h : (Work.compile choice linking program).Returns w g) :
    ∀ b ∈ g.blocks, b.id = .null ∨ ∃ text, text ≠ "" ∧ b.id = .str text := by
  intro b hb
  obtain ⟨tree, ht, ⟨_, rfl⟩ | ⟨hl, s, k, _, hstrategy, hy⟩⟩ := compile_cases h
  · exact .inl (isTree_of_tree? ht b hb).noId
  · obtain ⟨label, hlabel⟩ := hs hl
    have hsequential : s.strategy = .sequential label := Except.ok.inj (hstrategy.symm.trans hlabel)
    have hlinked := (linkGraph_yields.mp hy).1.graph
    exact .inr (hlinked.labelled (IdSupply.idAt_ne_empty hsequential) b hb)

/-- The schema accepts a compiled graph exactly if every operation of the program has a tag that is
not empty, and no descriptor of a monitor looks like a service call without being one. -/
theorem compiled_schema_issues_iff
    (hs : linking = true → ∃ label, w.strategyFor choice = .ok (.sequential label))
    (h : (Work.compile choice linking program).Returns w g) :
    LoadedSchema.flowGraph.issues g.toJson = .ok [] ↔
      ∀ o ∈ program.operations, o.type ≠ "" ∧ o.args.Representable := by
  have hcompiled : (∀ b ∈ g.blocks, b.type ≠ "" ∧ b.args.Representable) ↔
      ∀ o ∈ program.operations, o.type ≠ "" ∧ o.args.Representable := by
    refine forall_compiled_iff ?_ ?_ h
    · intro b copy hc
      rw [hc.type_eq, hc.args.representable_iff]
    · intro known b hb
      obtain ⟨id, _, ha⟩ := hb.target
      refine ⟨type_ne_empty_of_isLinkPrimitive hb.primitive, ?_⟩
      rw [ha]
      trivial
  rw [g.schema_issues_iff, ← hcompiled]
  constructor
  · intro hr b hb
    exact ⟨(hr b hb).type, (hr b hb).args⟩
  · intro hr b hb
    exact ⟨compiled_ids hs h b hb, (hr b hb).1, (hr b hb).2⟩

def untagged : Json := .arr [.arr [.str ""]]

def partialCall : Json :=
  .arr [.arr [.str "wait_for_monitor", .obj [("service_call_values", .int 1)]]]

/-- An empty tag, and a descriptor that is a service call in part. -/
theorem untagged_partialCall_have_issues :
    (∃ g, (Work.compile .current true untagged).Returns (labelledWorkspace "b") g ∧
      LoadedSchema.flowGraph.issues g.toJson ≠ .ok []) ∧
    ∃ g, (Work.compile .current true partialCall).Returns (labelledWorkspace "b") g ∧
      LoadedSchema.flowGraph.issues g.toJson ≠ .ok [] := by
  have hs : true = true → ∃ label,
      (labelledWorkspace "b").strategyFor .current = .ok (.sequential label) := fun _ => ⟨"b", rfl⟩
  have huntagged : (Work.compile .current true untagged).Returns (labelledWorkspace "b")
      [.mk (.str "b1") "" (.list []) []] := ⟨_, rfl⟩
  have hpartial : (Work.compile .current true partialCall).Returns (labelledWorkspace "b")
      [.mk (.str "b1") "wait_for_monitor" (.monitor [("service_call_values", .int 1)]) []] :=
    ⟨_, rfl⟩
  refine ⟨⟨_, huntagged, ?_⟩, ⟨_, hpartial, ?_⟩⟩
  · intro hi
    have ho := (compiled_schema_issues_iff hs huntagged).mp hi _ List.mem_cons_self
    exact ho.1 rfl
  · intro hi
    have ho := (compiled_schema_issues_iff hs hpartial).mp hi _ List.mem_cons_self
    have hid := (ho.2 (.int 1) rfl).1
    simp [List.lookup] at hid

end BlockFlow
