import Mathlib
import BlockFlow.Proofs.Linking.Runs
import BlockFlow.Proofs.Lowering.Trees

/-! Taking back what linking adds. -/

namespace BlockFlow

open Linking

mutual

/-- A block without ids, without the blocks that stand directly behind a fork, and without the last
block of each path of a fork. -/
def Block.unlinked : Block → Block
  | .mk _ type args contents =>
    .mk .null type (Args.unlinked args)
      (if type = Operation.forkExecution.tag then Content.unlinkedPaths contents
      else Content.unlinkedSequence false false contents)

def Args.unlinked : Args → Args
  | .list args => .list (Arg.unlinkedList args)
  | .monitor descriptor => .monitor descriptor
  | .call serviceId serviceAction values => .call serviceId serviceAction (Arg.unlinkedList values)

def Arg.unlinkedList : List Arg → List Arg
  | [] => []
  | .constant value :: rest => .constant value :: Arg.unlinkedList rest
  | .block value :: rest => .block (Block.unlinkedSequence false value) :: Arg.unlinkedList rest

def Content.unlinkedPaths : List Content → List Content
  | [] => []
  | .group contents :: rest =>
    .group (Content.unlinkedSequence true false contents) :: Content.unlinkedPaths rest
  | .block b :: rest => .block (Block.unlinked b) :: Content.unlinkedPaths rest

/-- A sequence that may be a path of a fork and may stand behind a fork. -/
def Content.unlinkedSequence (isPath behindFork : Bool) : List Content → List Content
  | [] => []
  | .group contents :: rest =>
    .group (Content.unlinkedSequence false false contents) ::
      Content.unlinkedSequence isPath false rest
  | .block b :: rest =>
    if behindFork || isPath && rest.isEmpty then Content.unlinkedSequence isPath b.isFork rest
    else .block (Block.unlinked b) :: Content.unlinkedSequence isPath b.isFork rest

def Block.unlinkedSequence (behindFork : Bool) : List Block → List Block
  | [] => []
  | b :: rest =>
    if behindFork then Block.unlinkedSequence b.isFork rest
    else Block.unlinked b :: Block.unlinkedSequence b.isFork rest

end

def Graph.unlinked (g : Graph) : Graph := Block.unlinkedSequence false g

/-- What a block is linked to: a copy of it, with a join behind it if it is a fork. -/
def IsLinkOf (linked : List Block) (b : Block) : Prop :=
  ∃ copy, copy.unlinked = b ∧
    (copy.isFork = false ∧ linked = [copy] ∨
      copy.isFork = true ∧ ∃ join, join.isFork = false ∧ linked = [copy, join])

theorem IsLinkOf.unlinked_head {copy b : Block} {rest : List Block}
    (h : IsLinkOf (copy :: rest) b) : copy.unlinked = b := by
  obtain ⟨copy', rfl, ⟨_, he⟩ | ⟨_, join, _, he⟩⟩ := h <;> rw [(List.cons.inj he).1]

theorem unlinkedSequence_link {linked : List Block} {b : Block} (h : IsLinkOf linked b)
    {isPath : Bool} {rest : List Content} (hr : isPath = true → rest ≠ []) :
    Content.unlinkedSequence isPath false (linked.map .block ++ rest) =
      .block b :: Content.unlinkedSequence isPath false rest := by
  have he : (isPath && rest.isEmpty) = false := by
    cases isPath <;> simp_all
  obtain ⟨copy, rfl, ⟨hc, rfl⟩ | ⟨hc, join, hj, rfl⟩⟩ := h
  · simp [Content.unlinkedSequence, hc, he]
  · simp [Content.unlinkedSequence, hc, hj]

theorem unlinkedBlocks_link {linked : List Block} {b : Block} (h : IsLinkOf linked b)
    (rest : List Block) :
    Block.unlinkedSequence false (linked ++ rest) = b :: Block.unlinkedSequence false rest := by
  obtain ⟨copy, rfl, ⟨hc, rfl⟩ | ⟨hc, join, hj, rfl⟩⟩ := h
  · simp [Block.unlinkedSequence, hc]
  · simp [Block.unlinkedSequence, hc, hj]

/-- Taking back what linking added gives the part again. The paths of a fork are bodies, and a
sequence may be followed by what is added to it as a path. -/
def Fragment.IsUndone : (p : Fragment) → p.Linked → Prop
  | .block b, linked => IsLinkOf linked b
  | .arguments args, linked => linked.unlinked = args
  | .argList args, linked => Arg.unlinkedList linked = args
  | .paths _ contents, linked =>
    (∀ c ∈ contents, ∃ body, c = .group body) → Content.unlinkedPaths linked = contents
  | .sequence contents, linked => ∀ (isPath : Bool) (rest : List Content),
    (isPath = true → rest ≠ []) → Content.unlinkedSequence isPath false (linked ++ rest) =
      contents ++ Content.unlinkedSequence isPath false rest
  | .blockList blocks, linked => Block.unlinkedSequence false linked = blocks

theorem unlinkedSequence_of_isUndone {contents linked : List Content}
    (h : (Fragment.sequence contents).IsUndone linked) :
    Content.unlinkedSequence false false linked = contents := by
  have hs := h false [] (by simp)
  simpa only [List.append_nil, Content.unlinkedSequence] using hs

/-- The jump at the end of a path is taken off. -/
theorem unlinkedSequence_path {contents linked : List Content}
    (h : (Fragment.sequence contents).IsUndone linked) (id joinId : String) :
    Content.unlinkedSequence true false (linked ++ [.block (jump id joinId)]) = contents := by
  have hs := h true [.block (jump id joinId)] (by simp)
  simpa [Content.unlinkedSequence] using hs

theorem Links.isUndone {idAt : Nat → String} {p : Fragment} {n k : Nat} {r : p.Linked}
    (h : Links idAt p n r k) (ht : ∀ x ∈ p.before, x.Lowered) : p.IsUndone r := by
  induction h with
  | @plain _ _ args args' _ _ _ _ _ hf _ _ iha ihc =>
    obtain ⟨hb, ha, hc⟩ := Block.forall_blocks.mp ht
    obtain rfl := hb.noId
    have hargs : args'.unlinked = args := iha ha
    have hs := unlinkedSequence_of_isUndone (ihc hc)
    refine ⟨_, ?_, .inl ⟨?_, rfl⟩⟩
    · simp [Block.unlinked, hf, hargs, hs]
    · simpa [Block.isFork, Block.type] using hf
  | @fork _ args listed contents paths _ _ _ _ _ iha ihp =>
    obtain ⟨hb, ha, hc⟩ := Block.forall_blocks.mp ht
    obtain rfl := hb.noId
    have hargs : (Args.list listed).unlinked = args := iha ha
    have hpaths : Content.unlinkedPaths paths = contents := by
      obtain ⟨bodies', rfl⟩ := hb.fork_contents rfl
      exact ihp hc (by simp [bodies])
    refine ⟨_, ?_, .inr ⟨?_, _, isFork_join _ _ _, rfl⟩⟩
    · simp [Block.unlinked, hargs, hpaths]
    · simp [Block.isFork, Block.type]
  | list _ ih | call _ ih => exact congrArg _ (ih ht)
  | monitor | argsNil | blocksNil => rfl
  | pathsNil => exact fun _ => rfl
  | contentsNil => exact fun _ _ _ => rfl
  | argsConstant _ ih => exact congrArg _ (ih ht)
  | argsBlock _ _ _ ihv ihr =>
    obtain ⟨hv, hr⟩ := List.forall_mem_append.mp ht
    exact congrArg₂ _ (congrArg _ (ihv hv)) (ihr hr)
  | @pathsCons joinId c _ rest rest' _ m _ _ _ ihb ihr =>
    intro hg
    rw [Fragment.before_pathsCons, List.forall_mem_append] at ht
    obtain ⟨contents, rfl⟩ := hg c List.mem_cons_self
    have hrest : Content.unlinkedPaths rest' = rest :=
      ihr ht.2 fun c hc => hg c (List.mem_cons_of_mem _ hc)
    rw [Content.unlinkedPaths, unlinkedSequence_path (ihb ht.1), hrest]
    rfl
  | contentsGroup _ _ ihb ihr =>
    intro isPath rest hrest
    obtain ⟨hb, hr⟩ := List.forall_mem_append.mp ht
    rw [List.cons_append, Content.unlinkedSequence, unlinkedSequence_of_isUndone (ihb hb),
      ihr hr isPath rest hrest, List.cons_append]
  | contentsBlock _ _ ihb ihr =>
    intro isPath rest hrest
    obtain ⟨hb, hr⟩ := List.forall_mem_append.mp ht
    rw [List.append_assoc, unlinkedSequence_link (ihb hb) (by simp_all), ihr hr isPath rest hrest,
      List.cons_append]
  | @blocksCons _ _ rest rest' _ _ _ _ _ ihb ihr =>
    obtain ⟨hb, hr⟩ := List.forall_mem_append.mp ht
    have hrest : Block.unlinkedSequence false rest' = rest := ihr hr
    rw [Fragment.IsUndone, unlinkedBlocks_link (ihb hb), hrest]

end BlockFlow
