import Mathlib
import BlockFlow.Proofs.Compilation
import BlockFlow.Proofs.Warnings

/-! The warnings of lowering: one for each fork of the result that has too few paths, and no two of
them with the same path. -/

namespace BlockFlow

open Lowering

variable {least : Int}

/-- A warning of a fork with fewer than `least` paths. -/
def IsForkWarning (least : Int) (w : Warning) : Prop := w = .degenerateFork w.path least

/-! ### Places of the warnings -/

theorem checkPaths_warns (path : Path) (paths : List Content) :
    (checkPaths least path paths).Warns (IsForkWarning least) (· = path) := by
  unfold checkPaths
  split
  · have hw : IsForkWarning least (.degenerateFork path least) := rfl
    exact Traced.warns_emit hw
  · exact Traced.warns_pure ()

theorem lowerMonitor_warns (path : Path) (tag : String) (fields : List Json) :
    (lowerMonitor path tag fields).Warns (IsForkWarning least) path.Below := by
  unfold lowerMonitor
  split
  · exact Traced.warns_pure _
  · exact Traced.warns_fail _

/-- The paths of a fork are checked between its paths and its arguments, and the warning names the
fork itself. -/
theorem checkPaths_bind_warns {α β : Type} {path : Path} {x : Lowering α}
    (hx : x.Warns (IsForkWarning least) (path.args.BelowFrom 0)) (paths : List Content)
    (f : α → β) : (checkPaths least path paths >>= fun _ => x >>= fun a => pure (f a)).Warns
      (IsForkWarning least) fun q => q = path ∨ path.args.Below q := by
  refine ((checkPaths_warns path paths).bind (fun _ => hx.bind_pure f) ?_).mono ?_
  · rintro _ rfl hq
    exact Path.not_below_push _ _ hq.below
  · exact fun q hq => hq.imp id fun h => h.below

theorem Path.below_of_fork {p q : Path} (h : q = p ∨ p.args.Below q) : p.Below q := by
  rcases h with rfl | h
  · exact Path.below_refl q
  · exact h.of_push

mutual

theorem lowerArgument_warns : ∀ (v : Json) (path : Path),
    (lowerArgument least path v).Warns (IsForkWarning least) path.Below
  | .str _, _ | .bool _, _ | .int _, _ | .float _, _ => Traced.warns_pure _
  | .arr items, path => (lowerItems_warns items path).bind_pure _
  | .null, _ | .obj _, _ => Traced.warns_fail _

theorem lowerOperation_warns : ∀ (v : Json) (path : Path),
    (lowerOperation least path v).Warns (IsForkWarning least) path.Below
  | .arr items, path => lowerItems_warns items path
  | .str _, _ | .bool _, _ | .int _, _ | .float _, _ | .null, _ | .obj _, _ => Traced.warns_fail _

theorem lowerItems_warns : ∀ (items : List Json) (path : Path),
    (lowerItems least path items).Warns (IsForkWarning least) path.Below
  | [], _ => Traced.warns_fail _
  | .str tag :: fields, path => by
    rw [lowerItems.eq_2]
    split
    · exact lowerMonitor_warns path tag fields
    · exact lowerCall_warns tag fields path
    · exact lowerConditional_warns tag fields path
    · exact lowerFork_warns tag fields path
    · exact ((lowerArguments_warns fields path.args 0).bind_pure _).mono
        fun q hq => hq.below.of_push
  | .null :: _, _ | .bool _ :: _, _ | .int _ :: _, _ | .float _ :: _, _ | .arr _ :: _, _
  | .obj _ :: _, _ => Traced.warns_fail _

theorem lowerCall_warns (tag : String) : ∀ (fields : List Json) (path : Path),
    (lowerCall least path tag fields).Warns (IsForkWarning least) path.Below
  | .obj call :: _, path =>
    ((lowerCallValues_warns call path).bind_pure _).mono fun _ hq => hq.below.of_push.of_push
  | [], _ | .null :: _, _ | .bool _ :: _, _ | .int _ :: _, _ | .float _ :: _, _ | .str _ :: _, _
  | .arr _ :: _, _ => Traced.warns_fail _

theorem lowerConditional_warns (tag : String) : ∀ (fields : List Json) (path : Path),
    (lowerConditional least path tag fields).Warns (IsForkWarning least) path.Below
  | [], _ => Traced.warns_fail _
  | condition :: branches, path => by
    rw [lowerConditional]
    split
    · exact Traced.warns_fail _
    · refine ((lowerBodies_warns branches path 0).bind
        (fun _ => (lowerArgument_warns condition (path.args.index 0)).bind_pure _) ?_).mono ?_
      · exact fun q hq hq' => Path.not_contents_and_args hq.below hq'.of_push
      · exact fun q hq => hq.elim (fun h => h.below.of_push) (fun h => h.of_push.of_push)

theorem lowerFork_warns (tag : String) : ∀ (fields : List Json) (path : Path),
    (lowerFork least path tag fields).Warns (IsForkWarning least) path.Below
  | [], path =>
    ((checkPaths_warns path []).bind_pure _).mono fun _ hq => Path.below_of_fork (.inl hq)
  | [.arr args], path =>
    (checkPaths_bind_warns (lowerArguments_warns args path.args 0) [] _).mono
      fun q hq => Path.below_of_fork hq
  | .arr args :: .arr paths :: _, path => by
    refine ((lowerBodies_warns paths path 0).bind (fun contents =>
      checkPaths_bind_warns (lowerArguments_warns args path.args 0) contents _) ?_).mono ?_
    · rintro q hq (rfl | hq')
      · exact Path.not_below_push _ _ hq.below
      · exact Path.not_contents_and_args hq.below hq'
    · exact fun q hq => hq.elim (fun h => h.below.of_push) Path.below_of_fork
  | .arr _ :: .null :: _, _ | .arr _ :: .bool _ :: _, _ | .arr _ :: .int _ :: _, _
  | .arr _ :: .float _ :: _, _ | .arr _ :: .str _ :: _, _ | .arr _ :: .obj _ :: _, _
  | .null :: _, _ | .bool _ :: _, _ | .int _ :: _, _ | .float _ :: _, _ | .str _ :: _, _
  | .obj _ :: _, _ => Traced.warns_fail _

theorem lowerArguments_warns : ∀ (values : List Json) (path : Path) (i : Nat),
    (lowerArguments least path i values).Warns (IsForkWarning least) (path.BelowFrom i)
  | [], _, _ => Traced.warns_pure _
  | v :: rest, path, i =>
    (lowerArgument_warns v (path.index i)).cons (lowerArguments_warns rest path (i + 1)) _

theorem lowerCallValues_warns : ∀ (call : List (String × Json)) (path : Path),
    (lowerCallValues least path call).Warns (IsForkWarning least) (path.callValues.BelowFrom 0)
  | [], _ => Traced.warns_pure _
  | (name, .arr items) :: rest, path => by
    rw [lowerCallValues]
    split
    · exact lowerArguments_warns items path.callValues 0
    · exact lowerCallValues_warns rest path
  | (_, .null) :: rest, path | (_, .bool _) :: rest, path | (_, .int _) :: rest, path
  | (_, .float _) :: rest, path | (_, .str _) :: rest, path | (_, .obj _) :: rest, path => by
    simp only [lowerCallValues]
    split
    · split
      · exact Traced.warns_fail _
      · exact Traced.warns_pure _
    · exact lowerCallValues_warns rest path

theorem lowerBodies_warns : ∀ (values : List Json) (path : Path) (i : Nat),
    (lowerBodies least path i values).Warns (IsForkWarning least) (path.contents.BelowFrom i)
  | [], _, _ => Traced.warns_pure _
  | .arr operations :: rest, path, i => by
    have hbody := (lowerSequence_warns operations (path.contents.index i) 0).mono
      fun _ hq => hq.below
    exact hbody.cons (lowerBodies_warns rest path (i + 1)) _
  | .null :: _, _, _ | .bool _ :: _, _, _ | .int _ :: _, _, _ | .float _ :: _, _, _
  | .str _ :: _, _, _ | .obj _ :: _, _, _ => Traced.warns_fail _

theorem lowerSequence_warns : ∀ (operations : List Json) (path : Path) (i : Nat),
    (lowerSequence least path i operations).Warns (IsForkWarning least) (path.BelowFrom i)
  | [], _, _ => Traced.warns_pure _
  | v :: rest, path, i =>
    (lowerOperation_warns v (path.index i)).cons (lowerSequence_warns rest path (i + 1)) _

end

/-! ### The number of warnings -/

/-- With `n` entries before it, a computation that ends with `a` leaves `total a` entries. -/
def Traced.Tallies {ω ε α : Type} (n : Nat) (total : α → Nat) (x : Traced ω ε α) : Prop :=
  ∀ a, x.outcome = .ok a → n + x.trace.length = total a

section

variable {ω ε α β : Type} {n : Nat}

theorem Traced.tallies_pure {total : α → Nat} {a : α} (h : n = total a) :
    (pure a : Traced ω ε α).Tallies n total := by
  rintro _ ⟨⟩
  exact h

theorem Traced.tallies_fail {total : α → Nat} (e : ε) :
    (fail e : Traced ω ε α).Tallies n total := by
  rintro _ ⟨⟩

theorem Traced.Tallies.bind {middle : α → Nat} {total : β → Nat} {x : Traced ω ε α}
    {f : α → Traced ω ε β} (hx : x.Tallies n middle) (hf : ∀ a, (f a).Tallies (middle a) total) :
    (x >>= f).Tallies n total := by
  obtain ⟨trace, e | a⟩ := x
  · rintro _ ⟨⟩
  · intro b hb
    have htrace : (⟨trace, .ok a⟩ >>= f : Traced ω ε β).trace.length =
        trace.length + (f a).trace.length := List.length_append
    rw [htrace, ← Nat.add_assoc, hx a rfl]
    exact hf a b hb

end

/-- A fork with fewer than `least` paths. -/
def Block.isThinFork (least : Int) (b : Block) : Bool :=
  b.isFork && decide ((b.contents.length : Int) < least)

/-- The number of forks with fewer than `least` paths. -/
def thinForks (least : Int) (blocks : List Block) : Nat := blocks.countP (Block.isThinFork least)

theorem thinForks_append (xs ys : List Block) :
    thinForks least (xs ++ ys) = thinForks least xs + thinForks least ys := List.countP_append

theorem thinForks_cons (b : Block) (rest : List Block) :
    thinForks least (b :: rest) = thinForks least rest + if b.isThinFork least then 1 else 0 :=
  List.countP_cons

/-- A block that is no fork adds nothing to those inside it. -/
theorem thinForks_blocks {id : Json} {type : String} {args : Args} {contents : List Content}
    (h : type ≠ Operation.forkExecution.tag) :
    thinForks least (Block.mk id type args contents).blocks =
      thinForks least args.blocks + thinForks least (Content.listBlocks contents) := by
  have hthin : Block.isThinFork least (.mk id type args contents) = false := by
    simp [Block.isThinFork, Block.isFork, Block.type, h]
  rw [Block.blocks, thinForks_cons, thinForks_append, hthin]
  rfl

theorem thinForks_fork (id : Json) (args : List Arg) (contents : List Content) :
    thinForks least (Block.mk id Operation.forkExecution.tag (.list args) contents).blocks =
      thinForks least (Content.listBlocks contents) +
        (if (contents.length : Int) < least then 1 else 0) +
          thinForks least (Arg.listBlocks args) := by
  have hthin : Block.isThinFork least (.mk id Operation.forkExecution.tag (.list args) contents) =
      decide ((contents.length : Int) < least) := by
    rw [Block.isThinFork, Block.isFork_iff.mpr rfl, Bool.true_and]
    rfl
  rw [Block.blocks, thinForks_cons, thinForks_append, hthin, Args.blocks]
  simp only [decide_eq_true_eq]
  omega

theorem checkPaths_tallies (n : Nat) (path : Path) (paths : List Content) :
    (checkPaths least path paths).Tallies n
      fun _ => n + if (paths.length : Int) < least then 1 else 0 := by
  unfold checkPaths
  split
  · rintro _ ⟨⟩
    rfl
  · exact Traced.tallies_pure rfl

theorem lowerMonitor_tallies (path : Path) (fields : List Json) (n : Nat) :
    (lowerMonitor path Operation.waitForMonitor.tag fields).Tallies n
      fun b => n + thinForks least b.blocks := by
  unfold lowerMonitor
  split
  · refine Traced.tallies_pure ?_
    rw [thinForks_blocks (by decide)]
    rfl
  · exact Traced.tallies_fail _

mutual

theorem lowerArgument_tallies : ∀ (v : Json) (path : Path) (n : Nat),
    (lowerArgument least path v).Tallies n fun arg => n + thinForks least arg.blocks
  | .str _, _, _ | .bool _, _, _ | .int _, _, _ | .float _, _, _ => Traced.tallies_pure rfl
  | .arr items, path, n => by
    refine (lowerItems_tallies items path n).bind fun b => Traced.tallies_pure ?_
    simp [Arg.blocks, Block.listBlocks]
  | .null, _, _ | .obj _, _, _ => Traced.tallies_fail _

theorem lowerOperation_tallies : ∀ (v : Json) (path : Path) (n : Nat),
    (lowerOperation least path v).Tallies n fun b => n + thinForks least b.blocks
  | .arr items, path, n => lowerItems_tallies items path n
  | .str _, _, _ | .bool _, _, _ | .int _, _, _ | .float _, _, _ | .null, _, _ | .obj _, _, _ =>
    Traced.tallies_fail _

theorem lowerItems_tallies : ∀ (items : List Json) (path : Path) (n : Nat),
    (lowerItems least path items).Tallies n fun b => n + thinForks least b.blocks
  | [], _, _ => Traced.tallies_fail _
  | .str tag :: fields, path, n => by
    rcases tag_cases tag with ht | ht | ht | ht | ht
    · obtain rfl := Operation.ofTag?_eq_some.mp ht
      simp only [lowerItems, ht]
      exact lowerMonitor_tallies path fields n
    · obtain rfl := Operation.ofTag?_eq_some.mp ht
      simp only [lowerItems, ht]
      exact lowerCall_tallies fields path n
    · obtain rfl := Operation.ofTag?_eq_some.mp ht
      simp only [lowerItems, ht]
      exact lowerConditional_tallies fields path n
    · obtain rfl := Operation.ofTag?_eq_some.mp ht
      simp only [lowerItems, ht]
      exact lowerFork_tallies fields path n
    · rw [lowerItems_plain ht]
      refine (lowerArguments_tallies fields path.args 0 n).bind fun args => Traced.tallies_pure ?_
      have hn : tag ≠ Operation.forkExecution.tag :=
        fun he => ht.2.2.2 (he ▸ Operation.ofTag?_tag _)
      rw [thinForks_blocks hn]
      rfl
  | .null :: _, _, _ | .bool _ :: _, _, _ | .int _ :: _, _, _ | .float _ :: _, _, _
  | .arr _ :: _, _, _ | .obj _ :: _, _, _ => Traced.tallies_fail _

theorem lowerCall_tallies : ∀ (fields : List Json) (path : Path) (n : Nat),
    (lowerCall least path Operation.callService.tag fields).Tallies n
      fun b => n + thinForks least b.blocks
  | .obj call :: _, path, n => by
    refine (lowerCallValues_tallies call path n).bind fun values => Traced.tallies_pure ?_
    rw [thinForks_blocks (by decide)]
    rfl
  | [], _, _ | .null :: _, _, _ | .bool _ :: _, _, _ | .int _ :: _, _, _ | .float _ :: _, _, _
  | .str _ :: _, _, _ | .arr _ :: _, _, _ => Traced.tallies_fail _

theorem lowerConditional_tallies : ∀ (fields : List Json) (path : Path) (n : Nat),
    (lowerConditional least path Operation.ifElse.tag fields).Tallies n
      fun b => n + thinForks least b.blocks
  | [], _, _ => Traced.tallies_fail _
  | condition :: branches, path, n => by
    rw [lowerConditional]
    split
    · exact Traced.tallies_fail _
    · refine (lowerBodies_tallies branches path 0 n).bind fun contents =>
        (lowerArgument_tallies condition (path.args.index 0) _).bind fun argument =>
          Traced.tallies_pure ?_
      rw [thinForks_blocks (by decide), listBlocks_withElse, Args.blocks, Arg.listBlocks_eq]
      simp only [List.flatMap_singleton]
      omega

theorem lowerFork_tallies : ∀ (fields : List Json) (path : Path) (n : Nat),
    (lowerFork least path Operation.forkExecution.tag fields).Tallies n
      fun b => n + thinForks least b.blocks
  | [], path, n => by
    refine (checkPaths_tallies n path []).bind fun _ => Traced.tallies_pure ?_
    rw [thinForks_fork]
    simp [thinForks, Content.listBlocks, Arg.listBlocks]
  | [.arr args], path, n => by
    refine (checkPaths_tallies n path []).bind fun _ =>
      (lowerArguments_tallies args path.args 0 _).bind fun listed => Traced.tallies_pure ?_
    rw [thinForks_fork]
    simp [thinForks, Content.listBlocks, Nat.add_assoc]
  | .arr args :: .arr paths :: _, path, n => by
    refine (lowerBodies_tallies paths path 0 n).bind fun contents =>
      (checkPaths_tallies _ path contents).bind fun _ =>
        (lowerArguments_tallies args path.args 0 _).bind fun listed => Traced.tallies_pure ?_
    rw [thinForks_fork]
    omega
  | .arr _ :: .null :: _, _, _ | .arr _ :: .bool _ :: _, _, _ | .arr _ :: .int _ :: _, _, _
  | .arr _ :: .float _ :: _, _, _ | .arr _ :: .str _ :: _, _, _ | .arr _ :: .obj _ :: _, _, _
  | .null :: _, _, _ | .bool _ :: _, _, _ | .int _ :: _, _, _ | .float _ :: _, _, _
  | .str _ :: _, _, _ | .obj _ :: _, _, _ => Traced.tallies_fail _

theorem lowerArguments_tallies : ∀ (values : List Json) (path : Path) (i n : Nat),
    (lowerArguments least path i values).Tallies n
      fun args => n + thinForks least (Arg.listBlocks args)
  | [], _, _, _ => Traced.tallies_pure rfl
  | v :: rest, path, i, n => by
    refine (lowerArgument_tallies v (path.index i) n).bind fun arg =>
      (lowerArguments_tallies rest path (i + 1) _).bind fun args => Traced.tallies_pure ?_
    simp only [Arg.listBlocks_eq, List.flatMap_cons, thinForks_append, Nat.add_assoc]

theorem lowerCallValues_tallies : ∀ (call : List (String × Json)) (path : Path) (n : Nat),
    (lowerCallValues least path call).Tallies n
      fun values => n + thinForks least (Arg.listBlocks values)
  | [], _, _ => Traced.tallies_pure rfl
  | (name, .arr items) :: rest, path, n => by
    rw [lowerCallValues]
    split
    · exact lowerArguments_tallies items path.callValues 0 n
    · exact lowerCallValues_tallies rest path n
  | (_, .null) :: rest, path, n | (_, .bool _) :: rest, path, n | (_, .int _) :: rest, path, n
  | (_, .float _) :: rest, path, n | (_, .str _) :: rest, path, n
  | (_, .obj _) :: rest, path, n => by
    simp only [lowerCallValues]
    split
    · split
      · exact Traced.tallies_fail _
      · exact Traced.tallies_pure rfl
    · exact lowerCallValues_tallies rest path n

theorem lowerBodies_tallies : ∀ (values : List Json) (path : Path) (i n : Nat),
    (lowerBodies least path i values).Tallies n
      fun contents => n + thinForks least (Content.listBlocks contents)
  | [], _, _, _ => Traced.tallies_pure rfl
  | .arr operations :: rest, path, i, n => by
    refine (lowerSequence_tallies operations (path.contents.index i) 0 n).bind fun body =>
      (lowerBodies_tallies rest path (i + 1) _).bind fun contents => Traced.tallies_pure ?_
    simp only [Content.listBlocks, Content.listBlocks_map_block, thinForks_append, Nat.add_assoc]
  | .null :: _, _, _, _ | .bool _ :: _, _, _, _ | .int _ :: _, _, _, _ | .float _ :: _, _, _, _
  | .str _ :: _, _, _, _ | .obj _ :: _, _, _, _ => Traced.tallies_fail _

theorem lowerSequence_tallies : ∀ (operations : List Json) (path : Path) (i n : Nat),
    (lowerSequence least path i operations).Tallies n
      fun blocks => n + thinForks least (Block.listBlocks blocks)
  | [], _, _, _ => Traced.tallies_pure rfl
  | v :: rest, path, i, n => by
    refine (lowerOperation_tallies v (path.index i) n).bind fun b =>
      (lowerSequence_tallies rest path (i + 1) _).bind fun blocks => Traced.tallies_pure ?_
    simp only [Block.listBlocks, thinForks_append, Nat.add_assoc]

end

/-! ### Programs -/

variable {path : Path} {program : Json} {tree : Graph}

theorem lowerProgram_warns (path : Path) (program : Json) :
    (lowerProgram least path program).Warns (IsForkWarning least) path.Below := by
  cases program with
  | arr operations => exact (lowerSequence_warns operations path 0).mono fun _ hq => hq.below
  | _ => exact Traced.warns_fail _

theorem length_trace_lowerProgram (h : (lowerProgram least path program).outcome = .ok tree) :
    (lowerProgram least path program).trace.length = thinForks least tree.blocks := by
  cases program with
  | arr operations =>
    have htally := lowerSequence_tallies operations path 0 0 tree h
    simp only [Nat.zero_add] at htally
    exact htally
  | _ => cases h

/-- Lowering adds warnings of thin forks to the report, and no others: as many as the tree has thin
forks, and no two with the same path. -/
theorem thin_forks_reported {w v : Workspace}
    (h : (Work.lowered (lowerProgram least path program)).Runs w tree v) :
    ∃ warnings, v.report.warnings = w.report.warnings ++ warnings ∧
      (∀ d ∈ warnings, d.code = "DEGENERATE_FORK") ∧
      warnings.length = thinForks least tree.blocks ∧
      (warnings.map Diagnostic.path).Nodup := by
  have hrun := Work.run_ofTraced .lowerer .lower (lowerProgram least path program) w
  obtain ⟨-, rfl⟩ := Prod.ext_iff.mp (hrun.symm.trans h)
  have hwarns : (lowerProgram least path program).Warns (IsForkWarning least) path.Below :=
    lowerProgram_warns path program
  refine ⟨_, warnings_foldl_warn .lowerer _ w, ?_, ?_, hwarns.distinct_texts⟩
  · intro d hd
    obtain ⟨warning, hw, rfl⟩ := List.mem_map.mp hd
    rw [hwarns.kinds warning hw]
    rfl
  · rw [List.length_map]
    exact length_trace_lowerProgram (runs_lowered h).1

/-- Forks with one path and with none, in sequences and in arguments, and one with two paths among
the values of a call. -/
def thinForkProgram : Json :=
  .arr [.arr [.str "op_fork_execution", .arr [.arr [.str "op_fork_execution"]],
      .arr [.arr [.arr [.str "command_call_service", .obj [("service_call_values",
        .arr [.arr [.str "op_fork_execution", .arr [.str "x"], .arr [.arr [], .arr []]]])]]]]],
    .arr [.str "control_if_else", .arr [.str "op_fork_execution", .arr []], .arr []]]

def thinForkTree : Graph :=
  [.mk .null "op_fork_execution"
      (.list [.block [.mk .null "op_fork_execution" (.list []) []]])
      [.group [.block (.mk .null "command_call_service" (.call .null .null
        [.block [.mk .null "op_fork_execution" (.list [.constant "x"]) [.group [], .group []]]])
          [])]],
    .mk .null "control_if_else" (.list [.block [.mk .null "op_fork_execution" (.list []) []]])
      [.group [], .group []]]

theorem thinForkProgram_reported :
    ∃ v, (Work.lowered (lowerProgram 2 .top thinForkProgram)).Runs (labelledWorkspace "b")
        thinForkTree v ∧
      v.report.warnings.length = 3 ∧ (v.report.warnings.map Diagnostic.path).Nodup := by
  obtain ⟨v, hv⟩ : (Work.lowered (lowerProgram 2 .top thinForkProgram)).Returns
      (labelledWorkspace "b") thinForkTree := ⟨_, rfl⟩
  obtain ⟨warnings, hadded, -, hlength, hdistinct⟩ := thin_forks_reported hv
  have hall : v.report.warnings = warnings := hadded
  refine ⟨v, hv, ?_⟩
  rw [hall]
  exact ⟨hlength, hdistinct⟩

end BlockFlow
