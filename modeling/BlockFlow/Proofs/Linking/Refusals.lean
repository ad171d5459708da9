import Mathlib
import BlockFlow.Proofs.Compilation
import BlockFlow.Proofs.Linking.Outcomes
import BlockFlow.Proofs.Linking.Verification

/-! When linking refuses a tree, and what the report says then. With numbered ids, only forks in
arguments and references written in the source can be at fault. -/

namespace BlockFlow

open Linking

variable {idAt : Nat → String} {n k : Nat}

/-- A fork in an argument ends linking before the check. -/
theorem linkGraph_fails_of_forkArgument {tree : Graph} (ht : tree.IsTree)
    (ha : tree.HasForkArgument) :
    ∃ path k, (linkGraph idAt tree).Fails n (.forkInArgument path) k := by
  rcases Graph.settles ht n with ⟨_, path, k, hf, _⟩ | ⟨hn, _⟩
  · exact ⟨path, k, hf.bind _⟩
  · exact (hn ha).elim

/-- The ids that linking takes for a tree. -/
def Graph.idsTaken (idAt : Nat → String) (t : Graph) : List String :=
  idsBetween idAt 0 (t.blocks.length + synchronizers t.blocks)

/-- Without a fork in an argument, linking ends with the check, which complains of each dangling
block of the tree. -/
theorem linkGraph_checks {tree : Graph} (ht : tree.IsTree) (ha : ¬ tree.HasForkArgument)
    (hi : Function.Injective idAt) (hne : ∀ j, idAt j ≠ "") :
    ∃ (g : Graph) (problems : List Problem) (k : Nat),
      Links idAt (.blockList tree) 0 g k ∧ g.verify = .ok problems ∧
      List.Forall₂ (fun b problem => ∃ id, problem = b.complaint id)
        (tree.blocks.filter (Block.isDangling (tree.idsTaken idAt))) problems := by
  rcases Graph.settles ht 0 with ⟨hf, _⟩ | ⟨_, g, k, hy⟩
  · exact (ha hf).elim
  have hy : Links idAt (.blockList tree) 0 g k := .of_yields hy
  have hl := hy.graph
  have hk : k = tree.blocks.length + synchronizers tree.blocks := by
    have hlength := hl.length_eq
    have hcount := hl.blocks.length_eq
    omega
  obtain ⟨problems, hv, hp⟩ := LinkedBlocks.verify hl hi hne
  subst hk
  exact ⟨g, problems, _, hy, hv, hp⟩

theorem linkGraph_fails_of_problems {tree g : Graph} {problems : List Problem}
    (hy : Links idAt (.blockList tree) n g k) (hv : g.verify = .ok problems)
    (hp : problems ≠ []) : (linkGraph idAt tree).Fails n (.broken problems) k := by
  refine (hy.yields .top 0).bind_fails ?_
  rw [hv]
  cases problems with
  | nil => exact (hp rfl).elim
  | cons problem rest => exact fails_throw _

theorem addErrors_report (w : Workspace) (diagnostics : List Diagnostic) :
    (w.addErrors diagnostics).report =
      { w.report with errors := w.report.errors ++ diagnostics } := by
  simp only [Workspace.addErrors]
  generalize w.report = report
  induction diagnostics generalizing report with
  | nil => simp
  | cons d rest ih => simp [ih, Report.addError]

theorem Work.fails_link {w : Workspace} {tree : Graph} {e : LinkError}
    (h : (linkGraph w.ids.idAt tree).Fails 0 e k) :
    ∃ v, (Work.link tree).Fails w (.link e) v ∧
      v.report = { w.report with errors := w.report.errors ++ e.diagnostics } := by
  have hs := IdSupply.link_of_fails h
  refine ⟨({ w with ids := w.ids.advance k }).addErrors e.diagnostics, ?_, addErrors_report _ _⟩
  refine (Work.runs_get.mpr ⟨rfl, rfl⟩).bind_fails ?_
  simp only [hs]
  refine Work.Runs.bind_fails (a := ()) (Work.runs_modify.mpr rfl) ?_
  exact Work.Runs.bind_fails (a := ()) (Work.runs_modify.mpr rfl) (Work.fails_throw _)

theorem Work.runs_link_of_yields {w : Workspace} {tree g : Graph}
    (h : (linkGraph w.ids.idAt tree).Yields 0 g k) :
    ∃ v, (Work.link tree).Runs w g v ∧ v.report = w.report := by
  have hs := IdSupply.link_of_yields h
  refine ⟨({ w with ids := w.ids.advance k }).addLog ⟨Log.Level.debug, Component.linker.logger,
    "Linked " ++ toString g.length ++ " root blocks"⟩, ?_, rfl⟩
  refine Work.runs_bind.mpr ⟨w, w, Work.runs_get.mpr ⟨rfl, rfl⟩, ?_⟩
  simp only [hs]
  refine Work.runs_bind.mpr ⟨(), _, Work.runs_modify.mpr rfl, ?_⟩
  refine Work.runs_bind.mpr ⟨(), _, Work.runs_modify.mpr rfl, ?_⟩
  exact Work.runs_pure.mpr ⟨rfl, rfl⟩

section

variable {w : Workspace} {tree : Graph} {label : String}

theorem Work.link_forkArgument (ht : tree.IsTree) (ha : tree.HasForkArgument) :
    ∃ path v, (Work.link tree).Fails w (.link (.forkInArgument path)) v ∧
      v.report = { w.report with
        errors := w.report.errors ++ (LinkError.forkInArgument path).diagnostics } := by
  obtain ⟨path, k, hf⟩ := linkGraph_fails_of_forkArgument ht ha
  obtain ⟨v, hv, hr⟩ := Work.fails_link hf
  exact ⟨path, v, hv, hr⟩

/-- The error that reports a dangling block. -/
def IsComplaint (b : Block) (d : Diagnostic) : Prop :=
  d.code = "LINK_INVARIANT" ∧ ∃ id, d.message = (b.complaint id).message

theorem Work.link_checked (ht : tree.IsTree) (ha : ¬ tree.HasForkArgument)
    (hs : w.ids.strategy = .sequential label) :
    ((∀ b ∈ tree.blocks, b.isDangling (tree.idsTaken w.ids.idAt) = false) ∧
      ∃ g v, (Work.link tree).Runs w g v ∧ v.report = w.report ∧ Graph.verify g = .ok []) ∨
    ((∃ b ∈ tree.blocks, b.isDangling (tree.idsTaken w.ids.idAt) = true) ∧
      ∃ problems v, (Work.link tree).Fails w (.link (.broken problems)) v ∧
        v.report = { w.report with
          errors := w.report.errors ++ (LinkError.broken problems).diagnostics } ∧
        List.Forall₂ IsComplaint (tree.blocks.filter (Block.isDangling (tree.idsTaken w.ids.idAt)))
          (LinkError.broken problems).diagnostics) := by
  obtain ⟨g, problems, k, hy, hv, hp⟩ :=
    linkGraph_checks ht ha (IdSupply.idAt_injective hs) (IdSupply.idAt_ne_empty hs)
  by_cases hn : problems = []
  · left
    subst hn
    have hnone := List.forall₂_nil_right_iff.mp hp
    obtain ⟨v, hr, hreport⟩ := Work.runs_link_of_yields (linkGraph_yields.mpr ⟨hy, hv⟩)
    exact ⟨by simpa using hnone, g, v, hr, hreport, hv⟩
  · right
    obtain ⟨v, hf, hreport⟩ := Work.fails_link (linkGraph_fails_of_problems hy hv hn)
    refine ⟨?_, problems, v, hf, hreport, ?_⟩
    · by_contra hnone
      apply hn
      have hnil : tree.blocks.filter (Block.isDangling (tree.idsTaken w.ids.idAt)) = [] := by
        simpa using hnone
      rw [hnil] at hp
      exact List.forall₂_nil_left_iff.mp hp
    · rw [LinkError.diagnostics, List.forall₂_map_right_iff]
      refine hp.imp ?_
      rintro b problem ⟨id, rfl⟩
      exact ⟨rfl, id, rfl⟩

end

/-- The ids of a fresh supply with a label, as many as a tree has blocks, forks and paths. -/
def Graph.labels (t : Graph) (label : String) : List String :=
  (List.range (t.blocks.length + (forks t.blocks).length +
    ((forks t.blocks).map fun fork => fork.contents.length).sum)).map
      fun i => label ++ toString (i + 1)

theorem idsTaken_fresh {s : IdSupply} {label : String} (hs : s.strategy = .sequential label)
    (hc : s.counter = 0) (t : Graph) : t.idsTaken s.idAt = t.labels label := by
  simp only [Graph.idsTaken, idsBetween, Graph.labels, synchronizers, Nat.sub_zero,
    List.range_eq_range', Nat.add_assoc]
  refine List.map_congr_left ?_
  intro j _
  rw [IdSupply.idAt_sequential hs, hc, Nat.zero_add]

/-- Linking with fresh numbered ids is refused exactly if a fork is the value of an argument or a
block of the tree is dangling. The report then gets one error for the fork, or one for each
dangling block. -/
theorem link_refused_iff {least : Int} {path : Path} {program : Json} {tree : Graph}
    {label : String} {w : Workspace} (ht : (lowerProgram least path program).outcome = .ok tree)
    (hs : w.ids.strategy = .sequential label) (hc : w.ids.counter = 0) :
    ((∃ e v, (Work.link tree).Fails w (.link e) v ∧ (Failure.link e).isExpected = true) ↔
      tree.HasForkArgument ∨ ∃ b ∈ tree.blocks, b.isDangling (tree.labels label) = true) ∧
    (tree.HasForkArgument → ∃ e v d, (Work.link tree).Fails w (.link e) v ∧
      v.report = { w.report with errors := w.report.errors ++ [d] } ∧
      d.code = "FORK_IN_ARGUMENT") ∧
    (¬ tree.HasForkArgument → (∃ b ∈ tree.blocks, b.isDangling (tree.labels label) = true) →
      ∃ e v errors, (Work.link tree).Fails w (.link e) v ∧
        v.report = { w.report with errors := w.report.errors ++ errors } ∧
        List.Forall₂ IsComplaint (tree.blocks.filter (Block.isDangling (tree.labels label)))
          errors) ∧
    (¬ tree.HasForkArgument → (∀ b ∈ tree.blocks, b.isDangling (tree.labels label) = false) →
      ∃ g v, (Work.link tree).Runs w g v ∧ v.report = w.report ∧ Graph.verify g = .ok []) := by
  have htree := isTree_of_lowerProgram ht
  have hchecked (ha : ¬ tree.HasForkArgument) := Work.link_checked htree ha hs
  simp only [idsTaken_fresh hs hc] at hchecked
  refine ⟨⟨?_, ?_⟩, ?_, ?_, ?_⟩
  · rintro ⟨e, v, hf, _⟩
    by_contra hn
    obtain ⟨ha, hb⟩ := not_or.mp hn
    rcases hchecked ha with ⟨_, g, u, hr, _⟩ | ⟨hd, _⟩
    · exact hr.not_fails hf
    · exact hb hd
  · intro h
    by_cases ha : tree.HasForkArgument
    · obtain ⟨path, v, hf, _⟩ := Work.link_forkArgument (w := w) htree ha
      exact ⟨_, v, hf, rfl⟩
    · rcases hchecked ha with ⟨hn, _⟩ | ⟨_, problems, v, hf, _⟩
      · obtain ⟨b, hb, hd⟩ := h.resolve_left ha
        simp [hn b hb] at hd
      · exact ⟨_, v, hf, rfl⟩
  · intro ha
    obtain ⟨path, v, hf, hr⟩ := Work.link_forkArgument (w := w) htree ha
    exact ⟨_, v, _, hf, hr, rfl⟩
  · rintro ha ⟨b, hb, hd⟩
    rcases hchecked ha with ⟨hn, _⟩ | ⟨_, problems, v, hf, hr, hp⟩
    · simp [hn b hb] at hd
    · exact ⟨_, v, _, hf, hr, hp⟩
  · intro ha hn
    rcases hchecked ha with ⟨_, hr⟩ | ⟨⟨b, hb, hd⟩, _⟩
    · exact hr
    · simp [hn b hb] at hd

/-- Jumps to a generated join, to an id that linking does not take, and to no id at all. -/
def strayJumps : Json :=
  .arr [.arr [.str "op_fork_execution", .arr [],
      .arr [.arr [.arr [.str "jump_to_block", .str "b2"]], .arr []]],
    .arr [.str "jump_to_block", .str "b9"], .arr [.str "jump_to_block", .arr [.str "x"]]]

def strayJumpsTree : Graph :=
  [.mk .null "op_fork_execution" (.list [])
      [.group [.block (.mk .null "jump_to_block" (.list [.constant "b2"]) [])], .group []],
    .mk .null "jump_to_block" (.list [.constant "b9"]) [],
    .mk .null "jump_to_block" (.list [.block [.mk .null "x" (.list []) []]]) []]

theorem strayJumps_lowered :
    (lowerProgram 1 .top strayJumps).outcome = .ok strayJumpsTree := rfl

theorem strayJumps_refused :
    ∃ e v, (Work.link strayJumpsTree).Fails (labelledWorkspace "b") (.link e) v ∧
      v.report.errors.length = 2 := by
  have hlabels : strayJumpsTree.labels "b" = ["b1", "b2", "b3", "b4", "b5", "b6", "b7", "b8"] := rfl
  have hstray : strayJumpsTree.blocks.filter (Block.isDangling (strayJumpsTree.labels "b")) =
      [.mk .null "jump_to_block" (.list [.constant "b9"]) [],
        .mk .null "jump_to_block" (.list [.block [.mk .null "x" (.list []) []]]) []] := by
    rw [hlabels]
    rfl
  have hfork : ¬ strayJumpsTree.HasForkArgument := by
    simp [strayJumpsTree, Graph.HasForkArgument, Graph.blocks, Block.listBlocks, Block.blocks,
      Args.blocks, Arg.listBlocks, Content.listBlocks, Block.HoldsFork, Arg.HoldFork, Args.listed,
      Block.args, Block.isFork, Block.type, Operation.tag]
  have hsome : ∃ b ∈ strayJumpsTree.blocks, b.isDangling (strayJumpsTree.labels "b") = true := by
    have hm : Block.mk .null "jump_to_block" (.list [.constant "b9"]) [] ∈
        strayJumpsTree.blocks.filter (Block.isDangling (strayJumpsTree.labels "b")) := by
      rw [hstray]
      exact List.mem_cons_self
    exact ⟨_, List.mem_filter.mp hm⟩
  obtain ⟨_, _, hrefused, _⟩ :=
    link_refused_iff (w := labelledWorkspace "b") strayJumps_lowered rfl rfl
  obtain ⟨e, v, errors, hf, hr, hc⟩ := hrefused hfork hsome
  refine ⟨e, v, hf, ?_⟩
  rw [hstray] at hc
  rw [hr]
  exact hc.length_eq.symm

end BlockFlow
