import Mathlib
import BlockFlow.Proofs.Linking.Synchronization

/-! The blocks of a linked graph. In the order of traversal they are copies of the blocks of the
tree, with joins and jumps in between, and they share out the ids that linking took. -/

namespace BlockFlow

open Linking

/-- Arguments that differ in nested blocks only. -/
inductive Args.SameForm : Args → Args → Prop
  | list {args args' : List Arg} (h : Arg.constants args = Arg.constants args') :
    SameForm (.list args) (.list args')
  | monitor (descriptor : List (String × Json)) :
    SameForm (.monitor descriptor) (.monitor descriptor)
  | call (serviceId serviceAction : Json) (values values' : List Arg) :
    SameForm (.call serviceId serviceAction values) (.call serviceId serviceAction values')

/-- A block of the same type whose arguments differ in nested blocks only, with as many bodies where
it is no fork. -/
structure Block.CopyOf (copy b : Block) : Prop where
  type_eq : copy.type = b.type
  args : b.args.SameForm copy.args
  arity : copy.args.listed.length = b.args.listed.length
  bodies : b.isFork = false → Content.bodyCount? copy.contents = Content.bodyCount? b.contents

/-- A linking primitive with an id of this sort as its only argument. -/
structure Block.RefersTo (b : Block) (known : String → Prop) : Prop where
  primitive : isLinkPrimitive b.type = true
  target : ∃ id, known id ∧ b.args = .list [.constant id]

/-- The blocks `linked` are copies of the blocks `source` in the same order, with `added` linking
primitives in between. -/
inductive Interleaved (known : String → Prop) : Nat → List Block → List Block → Prop
  | nil : Interleaved known 0 [] []
  | copy {added : Nat} {source linked : List Block} {b copy : Block} (h : copy.CopyOf b)
      (rest : Interleaved known added source linked) :
      Interleaved known added (b :: source) (copy :: linked)
  | primitive {added : Nat} {source linked : List Block} {b : Block} (h : b.RefersTo known)
      (rest : Interleaved known added source linked) :
      Interleaved known (added + 1) source (b :: linked)

namespace Interleaved

variable {known known' : String → Prop} {a a' : Nat} {xs xs' ys ys' : List Block}

theorem append (h : Interleaved known a xs ys) (h' : Interleaved known a' xs' ys') :
    Interleaved known (a + a') (xs ++ xs') (ys ++ ys') := by
  induction h with
  | nil => simpa using h'
  | copy hc _ ih => exact .copy hc ih
  | @primitive added _ _ _ hp _ ih =>
    rw [Nat.add_right_comm]
    exact .primitive hp ih

theorem mono (hk : ∀ id, known id → known' id) (h : Interleaved known a xs ys) :
    Interleaved known' a xs ys := by
  induction h with
  | nil => exact .nil
  | copy hc _ ih => exact .copy hc ih
  | primitive hp _ ih =>
    obtain ⟨id, hi, ha⟩ := hp.target
    exact .primitive ⟨hp.primitive, id, hk id hi, ha⟩ ih

theorem length_eq (h : Interleaved known a xs ys) : ys.length = xs.length + a := by
  induction h with
  | nil => rfl
  | copy _ _ ih => simp only [List.length_cons]; omega
  | primitive _ _ ih => simp only [List.length_cons]; omega

/-- What copying does not change and linking primitives have, all linked blocks have if all blocks
of the tree do. -/
theorem forall_iff {P : Block → Prop} (hc : ∀ b copy : Block, copy.CopyOf b → (P copy ↔ P b))
    (hp : ∀ b : Block, b.RefersTo known → P b) (h : Interleaved known a xs ys) :
    (∀ y ∈ ys, P y) ↔ ∀ x ∈ xs, P x := by
  induction h with
  | nil => simp
  | copy h _ ih => simp only [List.forall_mem_cons, hc _ _ h, ih]
  | primitive h _ ih => simp only [List.forall_mem_cons, hp _ h, true_and, ih]

end Interleaved

/-- The joins and jumps that the forks among blocks call for. -/
def synchronizers (blocks : List Block) : Nat :=
  (forks blocks).length + ((forks blocks).map fun fork => fork.contents.length).sum

theorem synchronizers_append (xs ys : List Block) :
    synchronizers (xs ++ ys) = synchronizers xs + synchronizers ys := by
  simp only [synchronizers, forks_append, List.length_append, List.map_append, List.sum_append]
  omega

theorem synchronizers_cons (b : Block) (rest : List Block) :
    synchronizers (b :: rest) =
      (if b.isFork then b.contents.length + 1 else 0) + synchronizers rest := by
  unfold synchronizers
  rw [forks_cons]
  split
  · simp only [List.length_cons, List.map_cons, List.sum_cons]
    omega
  · omega

variable {idAt : Nat → String} {n m k a a' : Nat} {outer : List String}
  {xs xs' ys ys' : List Block}

/-- Linking with the ids from `n` up to `k` gives these blocks. The linking primitives among them
refer to those ids or to some from outside. -/
structure LinkedBlocks (idAt : Nat → String) (outer : List String) (n k added : Nat)
    (source linked : List Block) : Prop where
  le : n ≤ k
  ids : (linked.map Block.id).Perm ((List.range' n (k - n)).map fun j => .str (idAt j))
  blocks : Interleaved (fun id => id ∈ outer ∨ ∃ j, n ≤ j ∧ j < k ∧ idAt j = id) added source
    linked

namespace LinkedBlocks

theorem nil : LinkedBlocks idAt outer n n 0 [] [] := ⟨le_rfl, by simp, .nil⟩

theorem mono {outer' : List String} (ho : outer ⊆ outer')
    (h : LinkedBlocks idAt outer n k a xs ys) : LinkedBlocks idAt outer' n k a xs ys := by
  refine ⟨h.le, h.ids, h.blocks.mono ?_⟩
  rintro id (hm | hj)
  · exact .inl (ho hm)
  · exact .inr hj

theorem append (h : LinkedBlocks idAt outer n m a xs ys)
    (h' : LinkedBlocks idAt outer m k a' xs' ys') :
    LinkedBlocks idAt outer n k (a + a') (xs ++ xs') (ys ++ ys') := by
  have hnm := h.le
  have hmk := h'.le
  refine ⟨hnm.trans hmk, ?_, ?_⟩
  · have hr : List.range' n (k - n) = List.range' n (m - n) ++ List.range' m (k - m) := by
      have he : m = n + 1 * (m - n) := by omega
      have hl : k - n = (m - n) + (k - m) := by omega
      rw [hl, ← List.range'_append, ← he]
    rw [hr, List.map_append, List.map_append]
    exact h.ids.append h'.ids
  · apply (h.blocks.mono ?_).append (h'.blocks.mono ?_)
    · rintro id (hm | ⟨j, hj, hjk, he⟩)
      · exact .inl hm
      · exact .inr ⟨j, hj, by omega, he⟩
    · rintro id (hm | ⟨j, hj, hjk, he⟩)
      · exact .inl hm
      · exact .inr ⟨j, by omega, hjk, he⟩

/-- Taking an id makes it known to what comes after. -/
theorem take (h : LinkedBlocks idAt (idAt n :: outer) (n + 1) k a xs ys) :
    Interleaved (fun id => id ∈ outer ∨ ∃ j, n ≤ j ∧ j < k ∧ idAt j = id) a xs ys := by
  have hle := h.le
  refine h.blocks.mono ?_
  rintro id (hm | ⟨j, hj, hjk, he⟩)
  · rcases List.mem_cons.mp hm with rfl | hm
    · exact .inr ⟨n, le_rfl, by omega, rfl⟩
    · exact .inl hm
  · exact .inr ⟨j, by omega, hjk, he⟩

theorem ids_cons (h : LinkedBlocks idAt outer (n + 1) k a xs ys) :
    (.str (idAt n) :: ys.map Block.id).Perm
      ((List.range' n (k - n)).map fun j => .str (idAt j)) := by
  have hle := h.le
  have hr : List.range' n (k - n) = n :: List.range' (n + 1) (k - (n + 1)) := by
    have hl : k - n = (k - (n + 1)) + 1 := by omega
    rw [hl, List.range'_succ]
  rw [hr, List.map_cons]
  exact h.ids.cons _

/-- A copy takes its id before the blocks inside it. -/
theorem cons {b copy : Block} (hc : copy.CopyOf b) (hi : copy.id = .str (idAt n))
    (h : LinkedBlocks idAt (idAt n :: outer) (n + 1) k a xs ys) :
    LinkedBlocks idAt outer n k a (b :: xs) (copy :: ys) := by
  have hle := h.le
  refine ⟨by omega, ?_, .copy hc h.take⟩
  rw [List.map_cons, hi]
  exact h.ids_cons

/-- A join takes its id before the paths and stands behind them. -/
theorem behind {join : Block} (hj : join.RefersTo (· ∈ outer)) (hi : join.id = .str (idAt n))
    (h : LinkedBlocks idAt (idAt n :: outer) (n + 1) k a xs ys) :
    LinkedBlocks idAt outer n k (a + 1) xs (ys ++ [join]) := by
  have hle := h.le
  obtain ⟨id, hm, ha⟩ := hj.target
  refine ⟨by omega, ?_, ?_⟩
  · rw [List.map_append, List.map_singleton, hi]
    exact (List.perm_append_singleton _ _).trans h.ids_cons
  · have hlast := h.take.append (.primitive ⟨hj.primitive, id, .inl hm, ha⟩ .nil)
    simpa using hlast

/-- A jump takes its id after the blocks before it. -/
theorem snoc {jump : Block} (h : LinkedBlocks idAt outer n m a xs ys)
    (hj : jump.RefersTo (· ∈ outer)) (hi : jump.id = .str (idAt m)) :
    LinkedBlocks idAt outer n (m + 1) (a + 1) xs (ys ++ [jump]) := by
  have hjump : LinkedBlocks idAt outer m (m + 1) 1 [] [jump] := behind hj hi nil
  simpa using h.append hjump

theorem length_eq (h : LinkedBlocks idAt outer n k a xs ys) : k = n + ys.length := by
  have hl := h.ids.length_eq
  have hle := h.le
  simp only [List.length_map, List.length_range'] at hl
  omega

end LinkedBlocks

theorem Links.sameForm {args linked : Args} (h : Links idAt (.arguments args) n linked k) :
    args.SameForm linked ∧ linked.listed.length = args.listed.length := by
  cases h with
  | list h => exact ⟨.list h.constants.1, h.constants.2⟩
  | monitor => exact ⟨.monitor _, rfl⟩
  | call h => exact ⟨.call _ _ _ _, h.constants.2⟩

/-- Linking puts blocks only where there are blocks. -/
theorem Links.bodyCount? {contents linked : List Content}
    (h : Links idAt (.sequence contents) n linked k) :
    Content.bodyCount? linked = Content.bodyCount? contents := by
  induction contents generalizing n linked with
  | nil =>
    cases h
    rfl
  | cons c rest ih =>
    cases h with
    | contentsGroup _ hr => simp only [Content.bodyCount?, ih hr]
    | contentsBlock hb _ => cases hb <;> rfl

theorem join_refersTo (id fork : String) (args : List Arg) :
    (join id fork args).RefersTo (· ∈ [fork]) := by
  refine ⟨?_, fork, by simp, rfl⟩
  simp only [join, Block.type, joinType]
  split <;> decide

theorem jump_refersTo (id join : String) : (jump id join).RefersTo (· ∈ [join]) := by
  refine ⟨?_, join, by simp, rfl⟩
  simp only [jump, Block.type]
  decide

theorem synchronizers_plain {type : String} (hf : type ≠ Operation.forkExecution.tag) (id : Json)
    (args : Args) (contents : List Content) :
    synchronizers (Block.mk id type args contents).blocks =
      synchronizers args.blocks + synchronizers (Content.listBlocks contents) := by
  simp [Block.blocks, synchronizers_cons, synchronizers_append, Block.isFork_mk, hf]

/-- A fork calls for a join, and for a jump on each path. -/
theorem synchronizers_fork (id : Json) (args : Args) (contents : List Content) :
    synchronizers (Block.mk id Operation.forkExecution.tag args contents).blocks =
      synchronizers args.blocks +
        (synchronizers (Content.listBlocks contents) + contents.length + 1) := by
  simp only [Block.blocks, synchronizers_cons, synchronizers_append, Block.isFork_mk,
    Block.contents, beq_self_eq_true, if_true]
  omega

/-- The ids from outside to which linking primitives in a part can refer. -/
def Fragment.outerIds : Fragment → List String
  | .paths joinId _ => [joinId]
  | _ => []

/-- How many linking primitives a part gets: those that its forks call for, and a jump for each
path. -/
def Fragment.added : Fragment → Nat
  | .block b => synchronizers b.blocks
  | .arguments args => synchronizers args.blocks
  | .argList args => synchronizers (Arg.listBlocks args)
  | .paths _ contents => synchronizers (Content.listBlocks contents) + contents.length
  | .sequence contents => synchronizers (Content.listBlocks contents)
  | .blockList blocks => synchronizers (Block.listBlocks blocks)

theorem LinkedBlocks.append_synchronizers
    (h : LinkedBlocks idAt outer n m (synchronizers xs) xs ys)
    (h' : LinkedBlocks idAt outer m k (synchronizers xs') xs' ys') :
    LinkedBlocks idAt outer n k (synchronizers (xs ++ xs')) (xs ++ xs') (ys ++ ys') := by
  rw [synchronizers_append]
  exact h.append h'

/-- The blocks of a linked part. -/
theorem Links.linkedBlocks {p : Fragment} {r : p.Linked} (h : Links idAt p n r k) :
    LinkedBlocks idAt p.outerIds n k p.added p.before (p.after r) := by
  induction h with
  | @plain id type args args' contents contents' n m k hf ha hc iha ihc =>
    have hcopy : (Block.mk (.str (idAt n)) type args' contents').CopyOf
        (.mk id type args contents) :=
      ⟨rfl, ha.sameForm.1, ha.sameForm.2, fun _ => hc.bodyCount?⟩
    have hin : LinkedBlocks idAt [] (n + 1) k
        (synchronizers args.blocks + synchronizers (Content.listBlocks contents))
        (args.blocks ++ Content.listBlocks contents)
        (args'.blocks ++ Content.listBlocks contents') := LinkedBlocks.append iha ihc
    rw [← synchronizers_plain hf id] at hin
    have hb : LinkedBlocks idAt [] n k _ _ _ := .cons hcopy rfl (hin.mono (List.nil_subset _))
    rw [Fragment.after, Block.listBlocks, Block.listBlocks, List.append_nil]
    exact hb
  | @fork id args listed contents paths n m k ha hp iha ihp =>
    have hcopy : (Block.mk (.str (idAt n)) Operation.forkExecution.tag (.list listed) paths).CopyOf
        (.mk id Operation.forkExecution.tag args contents) :=
      ⟨rfl, ha.sameForm.1, ha.sameForm.2, by simp [Block.isFork_mk]⟩
    have hargs : LinkedBlocks idAt [] (n + 1) m (synchronizers args.blocks) args.blocks
        (Arg.listBlocks listed) := iha
    -- the join is numbered before the paths, and its id is known to the jumps in them
    have hpaths : LinkedBlocks idAt [idAt m] (m + 1) k
        (synchronizers (Content.listBlocks contents) + contents.length)
        (Content.listBlocks contents) (Content.listBlocks paths) := ihp
    have hknown : [idAt m] ⊆ [idAt m, idAt n] := by simp
    have hjoin := (hpaths.mono hknown).behind (join_refersTo (idAt m) (idAt n) listed) rfl
    have hin := (hargs.mono (List.nil_subset _)).append hjoin
    rw [← synchronizers_fork id] at hin
    have hb : LinkedBlocks idAt [] n k _ _ _ := hin.cons hcopy rfl
    rw [Fragment.after, Block.listBlocks, Block.listBlocks, Block.listBlocks, blocks_join,
      List.append_nil, Block.blocks, List.cons_append, List.append_assoc]
    exact hb
  | list _ ih | call _ ih | argsConstant _ ih => exact ih
  | monitor | argsNil | pathsNil | contentsNil | blocksNil => exact .nil
  | argsBlock _ _ _ ihb ihr | contentsGroup _ _ ihb ihr =>
    exact LinkedBlocks.append_synchronizers ihb ihr
  | @pathsCons joinId c body rest rest' n m k _ _ ihb ihr =>
    have hbody : LinkedBlocks idAt [] n m _ _ (Content.listBlocks body) := ihb
    have hpath := (hbody.mono (List.nil_subset _)).snoc (jump_refersTo (idAt m) joinId) rfl
    have hadded : (Fragment.paths joinId (c :: rest)).added =
        (Fragment.sequence c.asPath).added + 1 + (Fragment.paths joinId rest).added := by
      have hsplit := congrArg synchronizers (Fragment.before_pathsCons joinId c rest)
      simp only [Fragment.before, synchronizers_append] at hsplit
      simp only [Fragment.added, List.length_cons]
      omega
    rw [Fragment.after_pathsCons, Fragment.before_pathsCons, hadded]
    exact hpath.append ihr
  | contentsBlock _ _ ihb ihr =>
    rw [Fragment.after_contentsBlock]
    exact LinkedBlocks.append_synchronizers ihb ihr
  | blocksCons _ _ ihb ihr =>
    rw [Fragment.after_blocksCons]
    exact LinkedBlocks.append_synchronizers ihb ihr

theorem Links.graph {tree g : Graph} (h : Links idAt (.blockList tree) n g k) :
    LinkedBlocks idAt [] n k (synchronizers tree.blocks) tree.blocks g.blocks :=
  h.linkedBlocks

end BlockFlow
