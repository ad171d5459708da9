import Mathlib
import BlockFlow.Proofs.Canonical.Outlines
import BlockFlow.Proofs.CompiledGraphs
import BlockFlow.Proofs.Lowering.Grammar

/-! Conditionals in compiled graphs and in their canonical forms: each has its condition and one or
two branches, and all have two exactly if the source gives a branch to each. -/

namespace BlockFlow

open Json Linking

/-- A block with one argument, and with this many bodies and nothing else inside. -/
structure Block.HasBranches (b : Block) (count : Nat) : Prop where
  condition : ∃ arg, b.args = .list [arg]
  branches : ∃ bodies : List (List Content), bodies.length = count ∧
    b.contents = bodies.map .group

/-- If a block is a conditional, the number of its branches is one of these. -/
def Block.WithBranches (counts : List Nat) (b : Block) : Prop :=
  b.type = Operation.ifElse.tag → ∃ count ∈ counts, b.HasBranches count

variable {b x y : Block} {counts : List Nat}

theorem Args.single_iff {args : Args} :
    (∃ arg, args = .list [arg]) ↔ args.frame = .list [] ∧ args.listed.length = 1 := by
  cases args with
  | list listed => simp [Args.frame, Args.listed, List.length_eq_one_iff]
  | _ => simp [Args.frame]

theorem Block.hasBranches_iff {count : Nat} : b.HasBranches count ↔
    (b.args.frame = .list [] ∧ b.args.listed.length = 1) ∧
      Content.bodyCount? b.contents = some count := by
  rw [← Args.single_iff, Content.bodyCount?_eq_some]
  exact ⟨fun h => ⟨h.condition, h.branches⟩, fun h => ⟨h.1, h.2⟩⟩

/-! ### Linking and canonicalization -/

theorem Block.withBranches_congr (htype : x.type = y.type) (hframe : x.args.frame = y.args.frame)
    (harity : y.isFork = false → x.args.listed.length = y.args.listed.length)
    (hbodies : y.isFork = false → Content.bodyCount? x.contents = Content.bodyCount? y.contents) :
    x.WithBranches counts ↔ y.WithBranches counts := by
  unfold Block.WithBranches
  rw [htype]
  refine forall_congr' fun ht => exists_congr fun count => and_congr_right fun _ => ?_
  have hf : y.isFork = false := by
    rw [Block.isFork, ht]
    decide
  rw [Block.hasBranches_iff, Block.hasBranches_iff, hframe, harity hf, hbodies hf]

theorem Args.SameForm.frame_eq {args args' : Args} (h : args.SameForm args') :
    args'.frame = args.frame := by
  cases h <;> rfl

theorem Block.CopyOf.withBranches_iff (h : x.CopyOf b) :
    x.WithBranches counts ↔ b.WithBranches counts :=
  Block.withBranches_congr h.type_eq h.args.frame_eq (fun _ => h.arity) h.bodies

theorem passesOn_withBranches :
    PassesOn (Block.WithBranches counts) (Block.WithBranches counts) :=
  fun _ _ h => Block.withBranches_congr h.type_eq h.frame h.arity h.bodies

theorem Block.RefersTo.withBranches {known : String → Prop} (h : b.RefersTo known) :
    b.WithBranches counts := by
  intro ht
  have hp := h.primitive
  rw [ht] at hp
  exact absurd hp (by decide)

variable {choice : Work.IdChoice} {linking : Bool} {w : Workspace} {program : Json} {g : Graph}

theorem forall_compiled_withBranches (h : (Work.compile choice linking program).Returns w g) :
    (∀ b ∈ g.blocks, b.WithBranches counts) ↔
      ∀ o ∈ program.operations, o.WithBranches counts :=
  forall_compiled_iff (fun _ _ hc => hc.withBranches_iff) (fun _ _ hb => hb.withBranches) h

theorem exists_canonical_of_compile (h : (Work.compile choice linking program).Returns w g) :
    ∃ form, (g.canonical false).outcome = .ok form := by
  obtain ⟨tree, ht, ⟨_, rfl⟩ | ⟨_, s, k, _, _, hy⟩⟩ := compile_cases h
  · exact exists_canonical fun b hb => .inl (isTree_of_tree? ht b hb).noId
  · exact ⟨_, canonical_of_verify (linkGraph_yields.mp hy).2⟩

/-! ### Lowering -/

theorem Block.HasBranches.length_eq {count : Nat} (h : b.HasBranches count) :
    b.contents.length = count := by
  obtain ⟨bodies, hl, hc⟩ := h.branches
  rw [hc, List.length_map, hl]

variable {tree : Graph}

theorem exists_hasBranches (h : program.tree? = some tree) (hb : b ∈ tree.blocks)
    (ht : b.type = Operation.ifElse.tag) :
    ∃ count, 0 < count ∧ count ≤ 2 ∧ b.HasBranches count := by
  obtain ⟨v, hv⟩ := exists_source h b hb
  obtain ⟨condition, blocks, ha, hc, hpos, hle⟩ := conditional_of_block? hv ht
  refine ⟨blocks.length, hpos, hle, ⟨condition, ha⟩, blocks.map (·.map .block), by simp, ?_⟩
  simp [hc, bodies]

theorem tree_branches (h : program.tree? = some tree) :
    ∀ b ∈ tree.blocks, b.WithBranches [1, 2] := by
  intro b hb ht
  obtain ⟨count, hpos, hle, hbranches⟩ := exists_hasBranches h hb ht
  exact ⟨count, by simp; omega, hbranches⟩

theorem tree_two_branches_iff (h : program.tree? = some tree) :
    (∀ b ∈ tree.blocks, b.WithBranches [2]) ↔ program.IsSequence 1 := by
  rw [isSequence_iff le_rfl]
  constructor
  · intro htwo
    refine ⟨tree, h, ?_⟩
    intro b hb ht
    obtain ⟨count, hmem, hbranches⟩ := htwo b hb ht
    rw [hbranches.length_eq, List.mem_singleton.mp hmem]
    decide
  · rintro ⟨_, h', hbranched⟩ b hb ht
    obtain rfl := Option.some.inj (h.symm.trans h')
    obtain ⟨count, _, hle, hbranches⟩ := exists_hasBranches h hb ht
    have hlt := hbranched b hb ht
    rw [hbranches.length_eq] at hlt
    exact ⟨count, by simp; omega, hbranches⟩

/-- A conditional in a compiled graph has its condition as its one argument, and one or two
branches. All have two branches exactly if each conditional of the program is given at least one:
for one that is given none, only one empty branch is added. The canonical form, which exists, has
the same. -/
theorem conditional_branches (h : (Work.compile choice linking program).Returns w g) :
    ∃ form, (g.canonical false).outcome = .ok form ∧
      ∀ blocks ∈ [g.blocks, form.blocks],
        (∀ b ∈ blocks, b.WithBranches [1, 2]) ∧
          ((∀ b ∈ blocks, b.WithBranches [2]) ↔ program.IsSequence 1) := by
  obtain ⟨form, hform⟩ := exists_canonical_of_compile h
  obtain ⟨tree, ht, _⟩ := compile_cases h
  have hcompiled (counts : List Nat) : (∀ b ∈ g.blocks, b.WithBranches counts) ↔
      ∀ b ∈ tree.blocks, b.WithBranches counts := by
    rw [forall_compiled_withBranches h, Json.operations, ht]
  refine ⟨form, hform, ?_⟩
  intro blocks hb
  rcases List.mem_pair.mp hb with rfl | rfl
  · rw [hcompiled, hcompiled]
    exact ⟨tree_branches ht, tree_two_branches_iff ht⟩
  · rw [forall_canonical_iff passesOn_withBranches hform,
      forall_canonical_iff passesOn_withBranches hform, hcompiled, hcompiled]
    exact ⟨tree_branches ht, tree_two_branches_iff ht⟩

/-- A conditional with one branch, and in it one that is given none. -/
def branchless : Json :=
  .arr [.arr [.str "control_if_else", .str "c", .arr [.arr [.str "control_if_else", .bool true]]]]

def branchlessInner : Block :=
  .mk (.str "b2") "control_if_else" (.list [.constant "true"]) [.group []]

def branchlessGraph : Graph :=
  [.mk (.str "b1") "control_if_else" (.list [.constant "c"])
    [.group [.block branchlessInner], .group []]]

theorem branchless_conditional_branches :
    (Work.compile .current true branchless).Returns (labelledWorkspace "b") branchlessGraph ∧
      branchlessInner ∈ branchlessGraph.blocks ∧ branchlessInner.HasBranches 1 ∧
        ¬ branchless.IsSequence 1 := by
  have hreturns : (Work.compile .current true branchless).Returns (labelledWorkspace "b")
      branchlessGraph := ⟨_, rfl⟩
  have hinner : branchlessInner ∈ branchlessGraph.blocks := by
    simp [branchlessGraph, Graph.blocks, Block.listBlocks, Block.blocks, Content.listBlocks,
      branchlessInner]
  obtain ⟨_, _, hbranches⟩ := conditional_branches hreturns
  obtain ⟨hsome, htwo⟩ := hbranches branchlessGraph.blocks List.mem_cons_self
  refine ⟨hreturns, hinner, ?_, ?_⟩
  · obtain ⟨count, _, hcount⟩ := hsome branchlessInner hinner rfl
    obtain rfl : 1 = count := hcount.length_eq
    exact hcount
  · intro hgrammar
    obtain ⟨count, hmem, hcount⟩ := htwo.mpr hgrammar branchlessInner hinner rfl
    obtain rfl := List.mem_singleton.mp hmem
    exact absurd hcount.length_eq (by decide)

end BlockFlow
