import Mathlib
import BlockFlow.Proofs.Linking.SharedIds

/-! The order in which linking takes ids. It is the order of traversal, but for the joins: a join
gets its id before the paths of its fork and stands behind them. -/

namespace BlockFlow

open Linking

mutual

/-- A block, the blocks in its arguments, those `between`, and the blocks in its contents. -/
def Block.numbering (between : List Block) : Block → List Block
  | .mk id type args contents =>
    .mk id type args contents :: (Args.numbering args ++ (between ++ Content.numbering contents))

def Args.numbering : Args → List Block
  | .list args => Arg.numbering args
  | .monitor _ => []
  | .call _ _ values => Arg.numbering values

def Arg.numbering : List Arg → List Block
  | [] => []
  | .constant _ :: rest => Arg.numbering rest
  | .block value :: rest => Block.listNumbering value ++ Arg.numbering rest

/-- What stands directly behind a fork is its join. It comes between the arguments of the fork and
the paths. -/
def Content.numbering : List Content → List Block
  | [] => []
  | .group contents :: rest => Content.numbering contents ++ Content.numbering rest
  | .block b :: .block join :: rest =>
    if b.isFork then Block.numbering (Block.numbering [] join) b ++ Content.numbering rest
    else Block.numbering [] b ++ Content.numbering (.block join :: rest)
  | .block b :: rest => Block.numbering [] b ++ Content.numbering rest

def Block.listNumbering : List Block → List Block
  | [] => []
  | b :: join :: rest =>
    if b.isFork then Block.numbering (Block.numbering [] join) b ++ Block.listNumbering rest
    else Block.numbering [] b ++ Block.listNumbering (join :: rest)
  | [b] => Block.numbering [] b

end

/-- Every block of a graph, each join between the arguments and the paths of its fork. -/
def Graph.numbering (g : Graph) : List Block := Block.listNumbering g

section

variable {b join : Block}

theorem Content.numbering_block (hb : b.isFork = false) (rest : List Content) :
    Content.numbering (.block b :: rest) = b.numbering [] ++ Content.numbering rest := by
  rcases rest with _ | ⟨_ | _, rest⟩ <;> simp [Content.numbering, hb]

theorem Content.numbering_fork (hb : b.isFork = true) (rest : List Content) :
    Content.numbering (.block b :: .block join :: rest) =
      b.numbering (join.numbering []) ++ Content.numbering rest := by
  simp [Content.numbering, hb]

theorem Block.listNumbering_cons (hb : b.isFork = false) (rest : List Block) :
    Block.listNumbering (b :: rest) = b.numbering [] ++ Block.listNumbering rest := by
  cases rest <;> simp [Block.listNumbering, hb]

theorem Block.listNumbering_fork (hb : b.isFork = true) (rest : List Block) :
    Block.listNumbering (b :: join :: rest) =
      b.numbering (join.numbering []) ++ Block.listNumbering rest := by
  simp [Block.listNumbering, hb]

end

/-! ### The same blocks as in traversal -/

/-- A fork and its join, when they list the blocks inside them. -/
theorem perm_fork_join {fork join : Block}
    (hf : (fork.numbering (join.numbering [])).Perm (join.numbering [] ++ fork.blocks))
    (hj : (join.numbering []).Perm join.blocks) :
    (fork.numbering (join.numbering [])).Perm (fork.blocks ++ join.blocks) := by
  have hboth := hf.trans (hj.append_right _)
  exact hboth.trans List.perm_append_comm

mutual

theorem Block.numbering_perm : ∀ (b : Block) (between : List Block),
    (b.numbering between).Perm (between ++ b.blocks)
  | .mk id type args contents, between => by
    have hin := (Args.numbering_perm args).append
      ((Content.numbering_perm contents).append_left between)
    have hout := hin.trans (List.perm_append_comm_assoc _ _ _)
    exact (hout.cons _).trans List.perm_middle.symm

theorem Args.numbering_perm : ∀ args : Args, args.numbering.Perm args.blocks
  | .list args => Arg.numbering_perm args
  | .monitor _ => .nil
  | .call _ _ values => Arg.numbering_perm values

theorem Arg.numbering_perm : ∀ args : List Arg, (Arg.numbering args).Perm (Arg.listBlocks args)
  | [] => .nil
  | .constant _ :: rest => Arg.numbering_perm rest
  | .block value :: rest => (Block.listNumbering_perm value).append (Arg.numbering_perm rest)

theorem Content.numbering_perm : ∀ contents : List Content,
    (Content.numbering contents).Perm (Content.listBlocks contents)
  | [] => .nil
  | .group contents :: rest =>
    (Content.numbering_perm contents).append (Content.numbering_perm rest)
  | [.block b] => (Block.numbering_perm b []).append .nil
  | .block b :: .group contents :: rest =>
    (Block.numbering_perm b []).append (Content.numbering_perm (.group contents :: rest))
  | .block b :: .block join :: rest => by
    cases hf : b.isFork with
    | false =>
      rw [Content.numbering_block hf]
      exact (Block.numbering_perm b []).append (Content.numbering_perm (.block join :: rest))
    | true =>
      have hboth := perm_fork_join (Block.numbering_perm b _) (Block.numbering_perm join [])
      rw [Content.numbering_fork hf, Content.listBlocks, Content.listBlocks, ← List.append_assoc]
      exact hboth.append (Content.numbering_perm rest)

theorem Block.listNumbering_perm : ∀ blocks : List Block,
    (Block.listNumbering blocks).Perm (Block.listBlocks blocks)
  | [] => .nil
  | [b] => by
    rw [Block.listBlocks, Block.listBlocks, List.append_nil]
    exact Block.numbering_perm b []
  | b :: join :: rest => by
    cases hf : b.isFork with
    | false =>
      rw [Block.listNumbering_cons hf]
      exact (Block.numbering_perm b []).append (Block.listNumbering_perm (join :: rest))
    | true =>
      have hboth := perm_fork_join (Block.numbering_perm b _) (Block.numbering_perm join [])
      rw [Block.listNumbering_fork hf, Block.listBlocks, Block.listBlocks, ← List.append_assoc]
      exact hboth.append (Block.listNumbering_perm rest)

end

mutual

/-- Without forks nothing leaves its place. -/
theorem Block.numbering_of_no_fork : ∀ b : Block, (∀ x ∈ b.blocks, x.isFork = false) →
    b.numbering [] = b.blocks
  | .mk id type args contents, h => by
    obtain ⟨_, ha, hc⟩ := Block.forall_blocks.mp h
    rw [Block.numbering, Block.blocks, Args.numbering_of_no_fork args ha,
      Content.numbering_of_no_fork contents hc, List.nil_append]

theorem Args.numbering_of_no_fork : ∀ args : Args, (∀ x ∈ args.blocks, x.isFork = false) →
    args.numbering = args.blocks
  | .list args, h => Arg.numbering_of_no_fork args h
  | .monitor _, _ => rfl
  | .call _ _ values, h => Arg.numbering_of_no_fork values h

theorem Arg.numbering_of_no_fork : ∀ args : List Arg,
    (∀ x ∈ Arg.listBlocks args, x.isFork = false) → Arg.numbering args = Arg.listBlocks args
  | [], _ => rfl
  | .constant _ :: rest, h => Arg.numbering_of_no_fork rest h
  | .block value :: rest, h => by
    obtain ⟨hv, hr⟩ := List.forall_mem_append.mp h
    rw [Arg.numbering, Arg.listBlocks, Block.listNumbering_of_no_fork value hv,
      Arg.numbering_of_no_fork rest hr]

theorem Content.numbering_of_no_fork : ∀ contents : List Content,
    (∀ x ∈ Content.listBlocks contents, x.isFork = false) →
      Content.numbering contents = Content.listBlocks contents
  | [], _ => rfl
  | .group contents :: rest, h => by
    obtain ⟨hc, hr⟩ := List.forall_mem_append.mp h
    rw [Content.numbering, Content.listBlocks, Content.numbering_of_no_fork contents hc,
      Content.numbering_of_no_fork rest hr]
  | .block b :: rest, h => by
    obtain ⟨hb, hr⟩ := List.forall_mem_append.mp h
    rw [Content.numbering_block (hb b b.mem_blocks_self), Content.listBlocks,
      Block.numbering_of_no_fork b hb, Content.numbering_of_no_fork rest hr]

theorem Block.listNumbering_of_no_fork : ∀ blocks : List Block,
    (∀ x ∈ Block.listBlocks blocks, x.isFork = false) →
      Block.listNumbering blocks = Block.listBlocks blocks
  | [], _ => rfl
  | b :: rest, h => by
    obtain ⟨hb, hr⟩ := List.forall_mem_append.mp h
    rw [Block.listNumbering_cons (hb b b.mem_blocks_self), Block.listBlocks,
      Block.numbering_of_no_fork b hb, Block.listNumbering_of_no_fork rest hr]

end

/-! ### Linking -/

/-- What linking can make of one block: a block that is no fork, or a fork and its join. -/
inductive IsLinkedBlock : List Block → Prop
  | single {b : Block} (h : b.isFork = false) : IsLinkedBlock [b]
  | fork {fork : Block} (h : fork.isFork = true) (join : Block) : IsLinkedBlock [fork, join]

namespace IsLinkedBlock

variable {linked : List Block}

/-- A join comes with its fork, so a linked block and what follows do not mix. -/
theorem listNumbering_append (h : IsLinkedBlock linked) (rest : List Block) :
    Block.listNumbering (linked ++ rest) =
      Block.listNumbering linked ++ Block.listNumbering rest := by
  cases h with
  | single h => simp [Block.listNumbering_cons h, Block.listNumbering]
  | fork h join => simp [Block.listNumbering, h]

theorem numbering_append (h : IsLinkedBlock linked) (rest : List Content) :
    Content.numbering (linked.map .block ++ rest) =
      Block.listNumbering linked ++ Content.numbering rest := by
  cases h with
  | single h => simp [Content.numbering_block h, Block.listNumbering]
  | fork h join => simp [Content.numbering_fork h, Block.listNumbering, h]

end IsLinkedBlock

variable {idAt : Nat → String} {n m k : Nat}

theorem Links.isLinkedBlock {b : Block} {linked : List Block}
    (h : Links idAt (.block b) n linked k) : IsLinkedBlock linked := by
  cases h with
  | plain hf => exact .single (by simpa [Block.isFork_mk] using hf)
  | fork => exact .fork (by simp [Block.isFork_mk]) _

theorem Links.numbering_append {contents linked : List Content}
    (h : Links idAt (.sequence contents) n linked k) (rest : List Content) :
    Content.numbering (linked ++ rest) = Content.numbering linked ++ Content.numbering rest := by
  induction contents generalizing n linked with
  | nil =>
    cases h
    rfl
  | cons c tail ih =>
    cases h with
    | contentsGroup _ hr =>
      simp only [List.cons_append, Content.numbering, ih hr, List.append_assoc]
    | contentsBlock hb hr =>
      have hl := hb.isLinkedBlock
      rw [List.append_assoc, hl.numbering_append, hl.numbering_append, ih hr, List.append_assoc]

/-- The blocks have the ids from `n` up to `k`, in this order. -/
structure Numbered (idAt : Nat → String) (n k : Nat) (blocks : List Block) : Prop where
  count : k = n + blocks.length
  ids : blocks.map Block.id = (List.range' n blocks.length).map fun j => .str (idAt j)

namespace Numbered

variable {xs ys : List Block}

theorem nil : Numbered idAt n n [] := ⟨rfl, rfl⟩

theorem append (hx : Numbered idAt n m xs) (hy : Numbered idAt m k ys) :
    Numbered idAt n k (xs ++ ys) := by
  obtain ⟨rfl, hx⟩ := hx
  obtain ⟨rfl, hy⟩ := hy
  refine ⟨by rw [List.length_append, Nat.add_assoc], ?_⟩
  rw [List.length_append, ← List.range'_append_1, List.map_append, List.map_append, hx, hy]

/-- A block takes its id before what follows. -/
theorem cons {b : Block} (hb : b.id = .str (idAt n)) (h : Numbered idAt (n + 1) k xs) :
    Numbered idAt n k (b :: xs) := by
  obtain ⟨rfl, h⟩ := h
  refine ⟨by rw [List.length_cons]; omega, ?_⟩
  rw [List.length_cons, List.range'_succ, List.map_cons, List.map_cons, hb, h]

end Numbered

/-- The blocks of what a part is linked to, each join between the arguments and the paths of its
fork. -/
def Fragment.numbering : (p : Fragment) → p.Linked → List Block
  | .block _, linked | .blockList _, linked => Block.listNumbering linked
  | .arguments _, linked => linked.numbering
  | .argList _, linked => Arg.numbering linked
  | .paths _ _, linked | .sequence _, linked => Content.numbering linked

theorem Links.numbered {p : Fragment} {r : p.Linked} (h : Links idAt p n r k) :
    Numbered idAt n k (p.numbering r) := by
  induction h with
  | plain _ _ _ iha ihc => exact .cons rfl (Numbered.append iha ihc)
  | @fork _ _ listed _ paths n m _ _ _ iha ihp =>
    -- the join takes its id when the arguments have theirs
    have hjoin := Numbered.cons (b := join (idAt m) (idAt n) listed) rfl ihp
    have hfork : (Block.mk (.str (idAt n)) Operation.forkExecution.tag (.list listed)
        paths).isFork = true := by simp [Block.isFork_mk]
    rw [Fragment.numbering, Block.listNumbering_fork hfork, Block.listNumbering, List.append_nil]
    exact .cons rfl (Numbered.append iha hjoin)
  | list _ ih | call _ ih | argsConstant _ ih => exact ih
  | monitor | argsNil | pathsNil | contentsNil | blocksNil => exact .nil
  | argsBlock _ _ _ ihb ihr | contentsGroup _ _ ihb ihr => exact Numbered.append ihb ihr
  | @pathsCons joinId _ _ _ _ _ m _ hb _ ihb ihr =>
    -- the jump takes its id after the path
    have hjump := Numbered.cons (b := jump (idAt m) joinId) rfl ihr
    rw [Fragment.numbering, Content.numbering, hb.numbering_append, List.append_assoc]
    exact Numbered.append ihb hjump
  | contentsBlock hb _ ihb ihr =>
    rw [Fragment.numbering, hb.isLinkedBlock.numbering_append]
    exact Numbered.append ihb ihr
  | blocksCons hb _ ihb ihr =>
    rw [Fragment.numbering, hb.isLinkedBlock.listNumbering_append]
    exact Numbered.append ihb ihr

/-- The texts with the numbers that follow `counter`. -/
def labelsAfter (label : String) (counter count : Nat) : List Json :=
  (List.range count).map fun j => .str (label ++ toString (counter + j + 1))

variable {s t : IdSupply} {label : String} {tree g : Graph} {blocks : List Block}

theorem Numbered.labels (hs : s.strategy = .sequential label) (h : Numbered s.idAt 0 k blocks) :
    blocks.map Block.id = labelsAfter label s.counter blocks.length := by
  rw [h.ids, labelsAfter, List.range_eq_range']
  refine List.map_congr_left ?_
  intro j _
  rw [IdSupply.idAt_sequential hs]

theorem Graph.ids_eq_map (hg : Labelled g.blocks) : g.ids = g.blocks.map Block.id := by
  have hsome : g.ids = g.blocks.filterMap fun b => some b.id := by
    refine List.filterMap_congr ?_
    intro b hb
    obtain ⟨text, _, hid⟩ := hg b hb
    simp [hid]
  rw [hsome, List.filterMap_eq_map']

/-- Linking adds no forks. -/
theorem no_fork_of_link (h : (linkGraph idAt tree).Yields n g k)
    (hf : ∀ b ∈ tree.blocks, b.isFork = false) : ∀ b ∈ g.blocks, b.isFork = false := by
  have hl := (linkGraph_yields.mp h).1.graph
  refine (hl.blocks.forall_iff ?_ ?_).mpr hf
  · intro b copy hc
    rw [Block.isFork, Block.isFork, hc.type_eq]
  · intro b hb
    cases hb' : b.isFork with
    | false => rfl
    | true =>
      have hp := hb.primitive
      rw [Block.isFork_iff.mp hb'] at hp
      exact absurd hp (by decide)

/-- Linking with numbered ids gives them out in order. A block comes before the blocks in its
arguments, these before the blocks in its contents, and the join that stands directly behind a fork
comes before the paths. -/
theorem ids_follow_numbering (hs : s.strategy = .sequential label)
    (h : s.link tree = (.ok g, t)) :
    g.numbering.map Block.id = labelsAfter label s.counter g.blocks.length ∧
      g.numbering.Perm g.blocks ∧ (∀ sequence ∈ g.sequences, Synchronized sequence) ∧
      ((∀ b ∈ tree.blocks, b.isFork = false) →
        g.ids = labelsAfter label s.counter g.blocks.length) := by
  obtain ⟨k, hy, _⟩ := IdSupply.yields_of_link h
  have hb := (linkGraph_yields.mp hy).1
  have hperm : g.numbering.Perm g.blocks := Block.listNumbering_perm g
  have hids : g.numbering.map Block.id = labelsAfter label s.counter g.blocks.length := by
    rw [← hperm.length_eq]
    exact hb.numbered.labels hs
  obtain ⟨htop, hin⟩ := hb.synchronized
  refine ⟨hids, hperm, List.forall_mem_cons.mpr ⟨htop.synchronized, hin⟩, ?_⟩
  intro hf
  have hsame : g.numbering = g.blocks := Block.listNumbering_of_no_fork g (no_fork_of_link hy hf)
  have hl := hb.graph.labelled (IdSupply.idAt_ne_empty hs)
  rw [Graph.ids_eq_map hl, ← hsame, hids, hsame]

/-- A supply that has given out two ids. -/
def usedIds : IdSupply := ⟨.sequential "b", 2, toString, 0⟩

def numberedForks : Graph :=
  [.mk (.str "b3") "op_fork_execution" (.list [])
    [.group [.block (.mk (.str "b5") "op_fork_execution"
        (.list [.constant "exit-when-first-completed"])
        [.group [.block (.mk (.str "b7") "control_wait" (.list [.constant "1"]) []),
          .block (.mk (.str "b8") "jump_to_block" (.list [.constant "b6"]) [])]]),
      .block (.mk (.str "b6") "trigger_when_first_completed" (.list [.constant "b5"]) []),
      .block (.mk (.str "b9") "jump_to_block" (.list [.constant "b4"]) [])],
    .group [.block (.mk (.str "b10") "jump_to_block" (.list [.constant "b4"]) [])]],
  .mk (.str "b4") "trigger_when_all_completed" (.list [.constant "b3"]) []]

/-- A conditional with the ids of the block, of its condition and of its body. -/
def plainConditional (block condition body : Json) : Graph :=
  [.mk block "control_if_else" (.list [.block [.mk condition "op_equals" (.list []) []]])
    [.group [.block (.mk body "control_wait" (.list [.constant "1"]) [])]]]

/-- In the traversal the inner join stands behind two blocks that were numbered after it, and the
outer one comes last. -/
theorem usedIds_numbering :
    (usedIds.link nestedForksTree = (.ok numberedForks, usedIds.advance 8) ∧
      numberedForks.numbering.map Block.id = labelsAfter "b" 2 8 ∧
      numberedForks.ids = [.str "b3", .str "b5", .str "b7", .str "b8", .str "b6", .str "b9",
        .str "b10", .str "b4"]) ∧
    usedIds.link (plainConditional .null .null .null) =
        (.ok (plainConditional (.str "b3") (.str "b4") (.str "b5")), usedIds.advance 3) ∧
      (plainConditional (.str "b3") (.str "b4") (.str "b5")).ids = labelsAfter "b" 2 3 := by
  have hs : usedIds.strategy = .sequential "b" := rfl
  have hforks : usedIds.link nestedForksTree = (.ok numberedForks, usedIds.advance 8) := rfl
  have hplain : usedIds.link (plainConditional .null .null .null) =
      (.ok (plainConditional (.str "b3") (.str "b4") (.str "b5")), usedIds.advance 3) := rfl
  refine ⟨⟨hforks, (ids_follow_numbering hs hforks).1, rfl⟩, hplain, ?_⟩
  exact (ids_follow_numbering hs hplain).2.2.2 (by decide)

end BlockFlow
