import Mathlib
import BlockFlow.Proofs.Linking.Unlinking

/-! Linking adds the synchronization of forks, and nothing else. -/

namespace BlockFlow

open Linking

mutual

/-- The sequences in a block: its contents, the values of its arguments, and those further down. -/
def Block.sequences : Block → List (List Content)
  | .mk _ _ args contents => contents :: (Args.sequences args ++ Content.listSequences contents)

def Args.sequences : Args → List (List Content)
  | .list args => Arg.listSequences args
  | .monitor _ => []
  | .call _ _ values => Arg.listSequences values

def Arg.listSequences : List Arg → List (List Content)
  | [] => []
  | .constant _ :: rest => Arg.listSequences rest
  | .block value :: rest =>
    value.map .block :: (Block.listSequences value ++ Arg.listSequences rest)

def Content.listSequences : List Content → List (List Content)
  | [] => []
  | .block b :: rest => Block.sequences b ++ Content.listSequences rest
  | .group contents :: rest =>
    contents :: (Content.listSequences contents ++ Content.listSequences rest)

def Block.listSequences : List Block → List (List Content)
  | [] => []
  | b :: rest => Block.sequences b ++ Block.listSequences rest

end

theorem blockSequences_append (xs ys : List Block) :
    Block.listSequences (xs ++ ys) = Block.listSequences xs ++ Block.listSequences ys := by
  induction xs with
  | nil => rfl
  | cons x xs ih => simp [Block.listSequences, ih]

theorem listSequences_append (xs ys : List Content) :
    Content.listSequences (xs ++ ys) = Content.listSequences xs ++ Content.listSequences ys := by
  induction xs with
  | nil => rfl
  | cons x xs ih => cases x <;> simp [Content.listSequences, ih]

theorem listSequences_map_block (blocks : List Block) :
    Content.listSequences (blocks.map .block) = Block.listSequences blocks := by
  induction blocks with
  | nil => rfl
  | cons b rest ih => simp [Content.listSequences, Block.listSequences, ih]

/-- Every sequence of a graph, the graph itself being one. -/
def Graph.sequences (g : Graph) : List (List Content) := g.map .block :: Block.listSequences g

/-- A path of a fork whose last block is a jump to the join with this id. -/
def EndsInJump (joinId : String) (path : Content) : Prop :=
  ∃ body jump, path = .group (body ++ [.block jump]) ∧ jump.type = Operation.jumpToBlock.tag ∧
    jump.args = .list [.constant joinId] ∧ jump.contents = []

/-- A join refers to its fork, and the paths of the fork end in jumps to the join. -/
structure IsJoinOf (join fork : Block) : Prop where
  refersToFork : ∃ id, fork.id = .str id ∧ join.args = .list [.constant id]
  noContents : join.contents = []
  waitsForFirst : .constant exitWhenFirstCompleted ∈ fork.args.listed →
    join.type = Operation.triggerWhenFirstCompleted.tag
  waitsForAll : .constant exitWhenFirstCompleted ∉ fork.args.listed →
    join.type = Operation.triggerWhenAllCompleted.tag
  jumps : ∃ id, join.id = .str id ∧ ∀ path ∈ fork.contents, EndsInJump id path

/-- Directly behind each fork of a sequence stands its join. -/
def Synchronized (sequence : List Content) : Prop :=
  ∀ before fork behind, sequence = before ++ .block fork :: behind → fork.isFork = true →
    ∃ join rest, behind = .block join :: rest ∧ IsJoinOf join fork

theorem synchronized_nil : Synchronized [] := by
  intro before fork behind h
  simp at h

theorem Synchronized.cons {c : Content} {rest : List Content}
    (hc : ∀ b, c = .block b → b.isFork = false) (h : Synchronized rest) :
    Synchronized (c :: rest) := by
  intro before fork behind he hf
  rcases before with _ | ⟨d, before⟩
  · obtain ⟨rfl, rfl⟩ := List.cons.inj he
    simp [hc fork rfl] at hf
  · exact h before fork behind (List.cons.inj he).2 hf

theorem Synchronized.fork {fork join : Block} {rest : List Content} (hj : IsJoinOf join fork)
    (hn : join.isFork = false) (h : Synchronized rest) :
    Synchronized (.block fork :: .block join :: rest) := by
  intro before other behind he hf
  rcases before with _ | ⟨d, before⟩
  · obtain ⟨hb, rfl⟩ := List.cons.inj he
    cases hb
    exact ⟨join, rest, rfl, hj⟩
  · exact h.cons (c := .block join) (by rintro b ⟨⟩; exact hn) before other behind
      (List.cons.inj he).2 hf

theorem synchronized_of_groups {contents : List Content}
    (h : ∀ c ∈ contents, ∃ body, c = .group body) : Synchronized contents := by
  intro before fork behind he
  obtain ⟨body, hb⟩ := h (.block fork) (by simp [he])
  cases hb

theorem Arg.mem_constants {args : List Arg} {value : String} :
    value ∈ Arg.constants args ↔ .constant value ∈ args := by
  simp only [Arg.constants, List.mem_filterMap]
  constructor
  · rintro ⟨_ | _, hm, he⟩
    · cases he
      exact hm
    · cases he
  · intro h
    exact ⟨_, h, rfl⟩

theorem isJoinOf_join {forkId joinId : String} {type : String} {listed : List Arg}
    {paths : List Content} (hp : ∀ path ∈ paths, EndsInJump joinId path) :
    IsJoinOf (join joinId forkId listed) (.mk (.str forkId) type (.list listed) paths) where
  refersToFork := ⟨forkId, rfl, rfl⟩
  noContents := rfl
  waitsForFirst h := by
    have hm : exitWhenFirstCompleted ∈ Arg.constants listed := Arg.mem_constants.mpr h
    simp only [join, Block.type, joinType, if_pos hm]
  waitsForAll h := by
    have hm : exitWhenFirstCompleted ∉ Arg.constants listed := mt Arg.mem_constants.mp h
    simp only [join, Block.type, joinType, if_neg hm]
  jumps := ⟨joinId, rfl, hp⟩

/-- A sequence in which each fork has its join, so that what follows has to see to its own forks
only. -/
def Completed (sequence : List Content) : Prop :=
  ∀ rest, Synchronized rest → Synchronized (sequence ++ rest)

theorem Completed.synchronized {sequence : List Content} (h : Completed sequence) :
    Synchronized sequence := by
  simpa using h [] synchronized_nil

theorem Completed.append {xs ys : List Content} (hx : Completed xs) (hy : Completed ys) :
    Completed (xs ++ ys) := by
  intro rest hr
  rw [List.append_assoc]
  exact hx _ (hy rest hr)

theorem completed_nil : Completed [] := fun _ hr => hr

theorem completed_group (contents : List Content) : Completed [.group contents] :=
  fun _ hr => hr.cons (by rintro b ⟨⟩)

theorem completed_block {b : Block} (hb : b.isFork = false) : Completed [.block b] :=
  fun _ hr => hr.cons (by rintro _ ⟨⟩; exact hb)

theorem Block.forall_sequences {P : List Content → Prop} {id : Json} {type : String} {args : Args}
    {contents : List Content} :
    (∀ s ∈ (Block.mk id type args contents).sequences, P s) ↔
      P contents ∧ (∀ s ∈ args.sequences, P s) ∧ ∀ s ∈ Content.listSequences contents, P s := by
  simp [Block.sequences, or_imp, forall_and]

theorem sequences_jump (id joinId : String) : (jump id joinId).sequences = [[]] := rfl

theorem sequences_join (id forkId : String) (listed : List Arg) :
    (join id forkId listed).sequences = [[]] := rfl

/-- The sequences in what a part is linked to. -/
def Fragment.sequences : (p : Fragment) → p.Linked → List (List Content)
  | .block _, linked | .blockList _, linked => Block.listSequences linked
  | .arguments _, linked => linked.sequences
  | .argList _, linked => Arg.listSequences linked
  | .paths _ _, linked | .sequence _, linked => Content.listSequences linked

/-- What a part is linked to is completed, if it is a sequence. The paths of a fork end in jumps to
the join. -/
def Fragment.IsCompleted : (p : Fragment) → p.Linked → Prop
  | .block _, linked | .blockList _, linked => Completed (linked.map .block)
  | .arguments _, _ | .argList _, _ => True
  | .paths joinId _, linked => ∀ c ∈ linked, EndsInJump joinId c
  | .sequence _, linked => Completed linked

variable {idAt : Nat → String} {p : Fragment} {n k : Nat} {r : p.Linked}

theorem Links.synchronized (h : Links idAt p n r k) :
    p.IsCompleted r ∧ ∀ s ∈ p.sequences r, Synchronized s := by
  induction h with
  | plain hf _ _ iha ihc =>
    refine ⟨completed_block (by simpa [Block.isFork, Block.type] using hf), ?_⟩
    simp only [Fragment.sequences, Block.listSequences, List.append_nil]
    exact Block.forall_sequences.mpr ⟨ihc.1.synchronized, iha.2, ihc.2⟩
  | fork _ _ iha ihp =>
    obtain ⟨hjumps, hpaths⟩ := ihp
    have hgroups : Synchronized _ := synchronized_of_groups fun c hc => by
      obtain ⟨body, jump, rfl, _⟩ := hjumps c hc
      exact ⟨_, rfl⟩
    refine ⟨fun rest hr => hr.fork (isJoinOf_join hjumps) (isFork_join _ _ _), ?_⟩
    simp only [Fragment.sequences, Block.listSequences, sequences_join, List.append_nil,
      List.forall_mem_append]
    exact ⟨Block.forall_sequences.mpr ⟨hgroups, iha.2, hpaths⟩, by simp [synchronized_nil]⟩
  | list _ ih | call _ ih | argsConstant _ ih => exact ⟨trivial, ih.2⟩
  | monitor | argsNil =>
    exact ⟨trivial, by simp [Fragment.sequences, Args.sequences, Arg.listSequences]⟩
  | argsBlock _ _ _ ihv ihr =>
    refine ⟨trivial, List.forall_mem_cons.mpr ⟨ihv.1.synchronized, ?_⟩⟩
    exact List.forall_mem_append.mpr ⟨ihv.2, ihr.2⟩
  | pathsNil =>
    exact ⟨by simp [Fragment.IsCompleted], by simp [Fragment.sequences, Content.listSequences]⟩
  | @pathsCons joinId _ body _ _ _ m _ _ _ ihb ihr =>
    obtain ⟨hbody, hin⟩ := ihb
    have hpath : Synchronized (body ++ [.block (jump (idAt m) joinId)]) :=
      (hbody.append (completed_block (isFork_jump _ _))).synchronized
    refine ⟨List.forall_mem_cons.mpr ⟨⟨body, _, rfl, rfl, rfl, rfl⟩, ihr.1⟩, ?_⟩
    simp only [Fragment.sequences, Content.listSequences, listSequences_append, sequences_jump,
      List.append_nil, List.forall_mem_cons, List.forall_mem_append]
    exact ⟨hpath, ⟨hin, by simp [synchronized_nil]⟩, ihr.2⟩
  | contentsNil | blocksNil =>
    refine ⟨completed_nil, ?_⟩
    simp [Fragment.sequences, Content.listSequences, Block.listSequences]
  | contentsGroup _ _ ihb ihr =>
    refine ⟨(completed_group _).append ihr.1, ?_⟩
    exact List.forall_mem_cons.mpr ⟨ihb.1.synchronized, List.forall_mem_append.mpr ⟨ihb.2, ihr.2⟩⟩
  | contentsBlock _ _ ihb ihr =>
    refine ⟨ihb.1.append ihr.1, ?_⟩
    simp only [Fragment.sequences, listSequences_append, listSequences_map_block]
    exact List.forall_mem_append.mpr ⟨ihb.2, ihr.2⟩
  | blocksCons _ _ ihb ihr =>
    refine ⟨?_, ?_⟩
    · rw [Fragment.IsCompleted, List.map_append]
      exact ihb.1.append ihr.1
    · simp only [Fragment.sequences, blockSequences_append]
      exact List.forall_mem_append.mpr ⟨ihb.2, ihr.2⟩

/-- The forks among blocks. -/
def forks (blocks : List Block) : List Block := blocks.filter Block.isFork

theorem forks_append (xs ys : List Block) : forks (xs ++ ys) = forks xs ++ forks ys := by
  simp [forks]

theorem forks_cons {b : Block} (rest : List Block) :
    forks (b :: rest) = if b.isFork then b :: forks rest else forks rest := by
  simp [forks, List.filter_cons]

theorem forks_nil : forks [] = [] := rfl

theorem forks_append_jump (blocks : List Block) (id joinId : String) :
    forks (blocks ++ [jump id joinId]) = forks blocks := by
  simp [forks]

theorem forks_after_append {xs ys us vs : List Block}
    (hx : (forks us).map Block.unlinked = forks xs)
    (hy : (forks vs).map Block.unlinked = forks ys) :
    (forks (us ++ vs)).map Block.unlinked = forks (xs ++ ys) := by
  rw [forks_append, forks_append, List.map_append, hx, hy]

/-- The forks of a linked part are those of the part. -/
theorem Links.forks_after (h : Links idAt p n r k) (ht : ∀ x ∈ p.before, x.Lowered) :
    (forks (p.after r)).map Block.unlinked = forks p.before := by
  induction h with
  | plain hf _ _ iha ihc =>
    obtain ⟨_, ha, hc⟩ := Block.forall_blocks.mp ht
    have hargs := iha ha
    have hcontents := ihc hc
    simp only [Fragment.before, Fragment.after] at hargs hcontents ⊢
    simp [Block.listBlocks, Block.blocks, forks_cons, forks_append, Block.isFork_mk, hf, hargs,
      hcontents]
  | fork ha' hp' iha ihp =>
    obtain ⟨_, ha, hc⟩ := Block.forall_blocks.mp ht
    have hcopy : IsLinkOf _ _ := (Links.fork ha' hp').isUndone ht
    have hargs := iha ha
    have hpaths := ihp hc
    simp only [Fragment.before, Fragment.after, Args.blocks] at hargs hpaths ⊢
    simp [Block.listBlocks, Block.blocks, forks_cons, forks_append, Block.isFork_mk, Args.blocks,
      hcopy.unlinked_head, hargs, hpaths, forks_nil]
  | list _ ih | call _ ih | argsConstant _ ih => exact ih ht
  | monitor | argsNil | pathsNil | contentsNil | blocksNil => rfl
  | argsBlock _ _ _ ihv ihr | contentsGroup _ _ ihv ihr =>
    obtain ⟨hv, hr⟩ := List.forall_mem_append.mp ht
    exact forks_after_append (ihv hv) (ihr hr)
  | pathsCons _ _ ihb ihr =>
    rw [Fragment.before_pathsCons] at ht ⊢
    obtain ⟨hb, hr⟩ := List.forall_mem_append.mp ht
    rw [Fragment.after_pathsCons, forks_append, forks_append_jump, ← forks_append]
    exact forks_after_append (ihb hb) (ihr hr)
  | contentsBlock _ _ ihb ihr =>
    obtain ⟨hb, hr⟩ := List.forall_mem_append.mp ht
    rw [Fragment.after_contentsBlock]
    exact forks_after_append (ihb hb) (ihr hr)
  | blocksCons _ _ ihb ihr =>
    obtain ⟨hb, hr⟩ := List.forall_mem_append.mp ht
    rw [Fragment.after_blocksCons]
    exact forks_after_append (ihb hb) (ihr hr)

/-- Linking adds the joins behind the forks, the jumps that end their paths and the ids, and
nothing else. -/
theorem link_adds_only_synchronization {least : Int} {path : Path} {program : Json}
    {tree g : Graph} (ht : (lowerProgram least path program).outcome = .ok tree)
    (h : (linkGraph idAt tree).Yields n g k) :
    (∀ s ∈ g.sequences, Synchronized s) ∧
      (forks g.blocks).map Block.unlinked = forks tree.blocks ∧ g.unlinked = tree := by
  have hl := isTree_of_lowerProgram ht
  have hy := (linkGraph_yields.mp h).1
  obtain ⟨htop, hs⟩ := hy.synchronized
  exact ⟨List.forall_mem_cons.mpr ⟨htop.synchronized, hs⟩, hy.forks_after hl, hy.isUndone hl⟩

/-- A fork with a second fork on its first path. -/
def nestedForks : Json :=
  .arr [.arr [.str "op_fork_execution", .arr [],
    .arr [.arr [.arr [.str "op_fork_execution", .arr [.str "exit-when-first-completed"],
      .arr [.arr [.arr [.str "control_wait", .int 1]]]]], .arr []]]]

def nestedForksTree : Graph :=
  [.mk .null "op_fork_execution" (.list [])
    [.group [.block (.mk .null "op_fork_execution"
      (.list [.constant "exit-when-first-completed"])
      [.group [.block (.mk .null "control_wait" (.list [.constant "1"]) [])]])], .group []]]

def nestedForksGraph : Graph :=
  [.mk (.str "b0") "op_fork_execution" (.list [])
    [.group [.block (.mk (.str "b2") "op_fork_execution"
        (.list [.constant "exit-when-first-completed"])
        [.group [.block (.mk (.str "b4") "control_wait" (.list [.constant "1"]) []),
          .block (.mk (.str "b5") "jump_to_block" (.list [.constant "b3"]) [])]]),
      .block (.mk (.str "b3") "trigger_when_first_completed" (.list [.constant "b2"]) []),
      .block (.mk (.str "b6") "jump_to_block" (.list [.constant "b1"]) [])],
    .group [.block (.mk (.str "b7") "jump_to_block" (.list [.constant "b1"]) [])]],
  .mk (.str "b1") "trigger_when_all_completed" (.list [.constant "b0"]) []]

theorem nestedForks_lowered :
    (lowerProgram 1 .top nestedForks).outcome = .ok nestedForksTree := rfl

theorem nestedForks_linked :
    (linkGraph ("b" ++ toString ·) nestedForksTree).Yields 0 nestedForksGraph 8 := rfl

theorem nestedForks_synchronized :
    (∀ s ∈ nestedForksGraph.sequences, Synchronized s) ∧
      (forks nestedForksGraph.blocks).map Block.unlinked = forks nestedForksTree.blocks ∧
      nestedForksGraph.unlinked = nestedForksTree :=
  link_adds_only_synchronization nestedForks_lowered nestedForks_linked

end BlockFlow
