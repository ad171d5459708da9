import Mathlib
import BlockFlow.Proofs.Linking.Fragments

/-! Successful runs of linking. What they do is stated once, as a relation with a case for each
way to link a part of a tree, and whatever holds of linked graphs follows by induction on it. -/

namespace BlockFlow

namespace Linking

/-- From `n` ids taken to `k` ids taken, linking succeeds with a result. -/
def Yields {α : Type} (x : Linking α) (n : Nat) (a : α) (k : Nat) : Prop :=
  (x.run.run n).run = (.ok a, k)

variable {α β : Type} {n k : Nat} {a b : α} {c : β}

theorem yields_pure : (pure a : Linking α).Yields n b k ↔ a = b ∧ n = k := by
  simp [Yields]

theorem yields_bind {x : Linking α} {f : α → Linking β} :
    (x >>= f).Yields n c k ↔ ∃ a m, x.Yields n a m ∧ (f a).Yields m c k := by
  rcases hx : (x.run.run n).run with ⟨_ | a, m⟩ <;>
    simp [Yields, ExceptT.run_bind, StateT.run_bind, hx]

theorem yields_takeId {idAt : Nat → String} {id : String} :
    (takeId idAt).Yields n id k ↔ idAt n = id ∧ n + 1 = k := by
  have h : ((takeId idAt).run.run n).run = (.ok (idAt n), n + 1) := rfl
  simp [Yields, h]

theorem not_yields_throw {e : LinkError} : ¬ (throw e : Linking α).Yields n a k := by
  simp [Yields]

/-- The jump that ends a path of a fork. -/
def jump (id joinId : String) : Block :=
  .mk (.str id) Operation.jumpToBlock.tag (constant joinId) []

/-- The join of a fork with these arguments. -/
def join (id forkId : String) (listed : List Arg) : Block :=
  .mk (.str id) (joinType listed).tag (constant forkId) []

@[simp] theorem blocks_jump (id joinId : String) : (jump id joinId).blocks = [jump id joinId] := rfl

@[simp] theorem blocks_join (id forkId : String) (listed : List Arg) :
    (join id forkId listed).blocks = [join id forkId listed] := rfl

@[simp] theorem isFork_jump (id joinId : String) : (jump id joinId).isFork = false := by
  simp only [jump, Block.isFork, Block.type]
  decide

@[simp] theorem isFork_join (id forkId : String) (listed : List Arg) :
    (join id forkId listed).isFork = false := by
  simp only [join, joinType, Block.isFork, Block.type]
  split <;> decide

end Linking

open Linking

theorem Fragment.after_pathsCons {joinId : String} {contents : List Content} (id : String)
    (body rest : List Content) :
    (Fragment.paths joinId contents).after
        (.group (body ++ [.block (jump id joinId)]) :: rest) =
      Content.listBlocks body ++ [jump id joinId] ++ Content.listBlocks rest := by
  simp [Fragment.after, Content.listBlocks]

/-- With the ids from `n` up to `k`, a part is linked to this. The place of the part in the tree
does not matter.

A block takes its id first; a fork takes the id of its join between its arguments and its paths, and
a jump takes its id after the path that it ends. -/
inductive Links (idAt : Nat → String) : (p : Fragment) → Nat → p.Linked → Nat → Prop
  | plain {id : Json} {type : String} {args args' : Args} {contents contents' : List Content}
      {n m k : Nat} (hf : type ≠ Operation.forkExecution.tag)
      (ha : Links idAt (.arguments args) (n + 1) args' m)
      (hc : Links idAt (.sequence contents) m contents' k) :
      Links idAt (.block (.mk id type args contents)) n
        [.mk (.str (idAt n)) type args' contents'] k
  | fork {id : Json} {args : Args} {listed : List Arg} {contents paths : List Content}
      {n m k : Nat} (ha : Links idAt (.arguments args) (n + 1) (.list listed) m)
      (hp : Links idAt (.paths (idAt m) contents) (m + 1) paths k) :
      Links idAt (.block (.mk id Operation.forkExecution.tag args contents)) n
        [.mk (.str (idAt n)) Operation.forkExecution.tag (.list listed) paths,
          join (idAt m) (idAt n) listed] k
  | list {args args' : List Arg} {n k : Nat} (h : Links idAt (.argList args) n args' k) :
      Links idAt (.arguments (.list args)) n (.list args') k
  | monitor {descriptor : List (String × Json)} {n : Nat} :
      Links idAt (.arguments (.monitor descriptor)) n (.monitor descriptor) n
  | call {serviceId serviceAction : Json} {values values' : List Arg} {n k : Nat}
      (h : Links idAt (.argList values) n values' k) :
      Links idAt (.arguments (.call serviceId serviceAction values)) n
        (.call serviceId serviceAction values') k
  | argsNil {n : Nat} : Links idAt (.argList []) n [] n
  | argsConstant {value : String} {rest rest' : List Arg} {n k : Nat}
      (h : Links idAt (.argList rest) n rest' k) :
      Links idAt (.argList (.constant value :: rest)) n (.constant value :: rest') k
  | argsBlock {value value' : List Block} {rest rest' : List Arg} {n m k : Nat}
      (hf : ∀ b ∈ value, b.isFork = false) (hv : Links idAt (.blockList value) n value' m)
      (hr : Links idAt (.argList rest) m rest' k) :
      Links idAt (.argList (.block value :: rest)) n (.block value' :: rest') k
  | pathsNil {joinId : String} {n : Nat} : Links idAt (.paths joinId []) n [] n
  | pathsCons {joinId : String} {c : Content} {body rest rest' : List Content} {n m k : Nat}
      (hb : Links idAt (.sequence c.asPath) n body m)
      (hr : Links idAt (.paths joinId rest) (m + 1) rest' k) :
      Links idAt (.paths joinId (c :: rest)) n
        (.group (body ++ [.block (jump (idAt m) joinId)]) :: rest') k
  | contentsNil {n : Nat} : Links idAt (.sequence []) n [] n
  | contentsGroup {contents body rest rest' : List Content} {n m k : Nat}
      (hb : Links idAt (.sequence contents) n body m)
      (hr : Links idAt (.sequence rest) m rest' k) :
      Links idAt (.sequence (.group contents :: rest)) n (.group body :: rest') k
  | contentsBlock {b : Block} {linked : List Block} {rest rest' : List Content} {n m k : Nat}
      (hb : Links idAt (.block b) n linked m) (hr : Links idAt (.sequence rest) m rest' k) :
      Links idAt (.sequence (.block b :: rest)) n (linked.map .block ++ rest') k
  | blocksNil {n : Nat} : Links idAt (.blockList []) n [] n
  | blocksCons {b : Block} {linked rest rest' : List Block} {n m k : Nat}
      (hb : Links idAt (.block b) n linked m) (hr : Links idAt (.blockList rest) m rest' k) :
      Links idAt (.blockList (b :: rest)) n (linked ++ rest') k

variable {idAt : Nat → String} {p : Fragment} {path : Path} {i n k : Nat}

/-- A block that is a path on its own is linked as a sequence of one. -/
theorem yields_linkContents_singleton {b : Block} {linked : List Content} :
    (linkContents idAt path 0 [.block b]).Yields n linked k ↔
      ∃ blocks, (linkBlock idAt (path.index 0) b).Yields n blocks k ∧
        linked = blocks.map .block := by
  simp only [linkContents, yields_bind, yields_pure]
  constructor
  · rintro ⟨blocks, _, h, _, _, ⟨rfl, rfl⟩, rfl, rfl⟩
    exact ⟨blocks, h, List.append_nil _⟩
  · rintro ⟨blocks, h, rfl⟩
    exact ⟨blocks, k, h, [], k, ⟨rfl, rfl⟩, List.append_nil _, rfl⟩

namespace Links

theorem of_yields {r : p.Linked} (h : (p.link idAt path i).Yields n r k) : Links idAt p n r k := by
  induction p using Fragment.induction generalizing path i n k with
  | block id type args contents iha ihp ihc =>
    simp only [Fragment.link, linkBlock, yields_bind, yields_takeId] at h
    obtain ⟨_, _, ⟨rfl, rfl⟩, args', m, ha, h⟩ := h
    split at h
    · next hf =>
      subst hf
      cases args' with
      | list listed =>
        simp only [yields_bind, yields_takeId, yields_pure] at h
        obtain ⟨_, _, ⟨rfl, rfl⟩, paths, _, hp, rfl, rfl⟩ := h
        exact .fork (iha (i := 0) ha) (ihp _ hp)
      | _ => exact (not_yields_throw h).elim
    · next hf =>
      simp only [yields_bind, yields_pure] at h
      obtain ⟨contents', _, hc, rfl, rfl⟩ := h
      exact .plain hf (iha (i := 0) ha) (ihc hc)
  | list args ih =>
    simp only [Fragment.link, linkArgs, yields_bind, yields_pure] at h
    obtain ⟨args', _, h, rfl, rfl⟩ := h
    exact .list (ih h)
  | monitor descriptor =>
    simp only [Fragment.link, linkArgs, yields_pure] at h
    obtain ⟨rfl, rfl⟩ := h
    exact .monitor
  | call serviceId serviceAction values ih =>
    simp only [Fragment.link, linkArgs, yields_bind, yields_pure] at h
    obtain ⟨values', _, h, rfl, rfl⟩ := h
    exact .call (ih h)
  | argsNil =>
    simp only [Fragment.link, linkArgList, yields_pure] at h
    obtain ⟨rfl, rfl⟩ := h
    exact .argsNil
  | argsConstant value rest ih =>
    simp only [Fragment.link, linkArgList, yields_bind, yields_pure] at h
    obtain ⟨rest', _, h, rfl, rfl⟩ := h
    exact .argsConstant (ih h)
  | argsBlock value rest ihv ihr =>
    simp only [Fragment.link, linkArgList] at h
    split at h
    · simp only [yields_bind] at h
      obtain ⟨_, _, h, _⟩ := h
      exact (not_yields_throw h).elim
    · next hf =>
      simp only [yields_bind, yields_pure] at h
      obtain ⟨value', m, hv, rest', _, hr, rfl, rfl⟩ := h
      exact .argsBlock (by simpa using hf) (ihv hv) (ihr hr)
  | pathsNil joinId =>
    simp only [Fragment.link, linkPaths, yields_pure] at h
    obtain ⟨rfl, rfl⟩ := h
    exact .pathsNil
  | pathsCons joinId c rest ihc ihr =>
    cases c with
    | group contents =>
      simp only [Fragment.link, linkPaths, yields_bind, yields_takeId, yields_pure] at h
      obtain ⟨body, m, hb, _, _, ⟨rfl, rfl⟩, rest', _, hr, rfl, rfl⟩ := h
      exact .pathsCons (ihc hb) (ihr hr)
    | block b =>
      simp only [Fragment.link, linkPaths, yields_bind, yields_takeId, yields_pure] at h
      obtain ⟨body, m, hb, _, _, ⟨rfl, rfl⟩, rest', _, hr, rfl, rfl⟩ := h
      have hpath : (linkContents idAt (path.index i) 0 [.block b]).Yields n (body.map .block) m :=
        yields_linkContents_singleton.mpr ⟨body, hb, rfl⟩
      rw [List.map_append]
      exact .pathsCons (ihc hpath) (ihr hr)
  | contentsNil =>
    simp only [Fragment.link, linkContents, yields_pure] at h
    obtain ⟨rfl, rfl⟩ := h
    exact .contentsNil
  | contentsGroup contents rest ihc ihr =>
    simp only [Fragment.link, linkContents, yields_bind, yields_pure] at h
    obtain ⟨body, m, hb, rest', _, hr, rfl, rfl⟩ := h
    exact .contentsGroup (ihc hb) (ihr hr)
  | contentsBlock b rest ihb ihr =>
    simp only [Fragment.link, linkContents, yields_bind, yields_pure] at h
    obtain ⟨linked, m, hb, rest', _, hr, rfl, rfl⟩ := h
    exact .contentsBlock (ihb (i := 0) hb) (ihr hr)
  | blocksNil =>
    simp only [Fragment.link, linkBlocks, yields_pure] at h
    obtain ⟨rfl, rfl⟩ := h
    exact .blocksNil
  | blocksCons b rest ihb ihr =>
    simp only [Fragment.link, linkBlocks, yields_bind, yields_pure] at h
    obtain ⟨linked, m, hb, rest', _, hr, rfl, rfl⟩ := h
    exact .blocksCons (ihb (i := 0) hb) (ihr hr)

theorem yields {r : p.Linked} (h : Links idAt p n r k) (path : Path) (i : Nat) :
    (p.link idAt path i).Yields n r k := by
  induction h generalizing path i with
  | plain hf _ _ iha ihc =>
    simp only [Fragment.link, linkBlock, hf, if_false, yields_bind, yields_takeId, yields_pure]
    exact ⟨_, _, ⟨rfl, rfl⟩, _, _, iha path 0, _, _, ihc _ _, rfl, rfl⟩
  | fork _ _ iha ihp =>
    simp only [Fragment.link, linkBlock, if_true, yields_bind, yields_takeId]
    refine ⟨_, _, ⟨rfl, rfl⟩, _, _, iha path 0, ?_⟩
    simp only [yields_bind, yields_takeId, yields_pure]
    exact ⟨_, _, ⟨rfl, rfl⟩, _, _, ihp _ _, rfl, rfl⟩
  | list _ ih | call _ ih =>
    simp only [Fragment.link, linkArgs, yields_bind, yields_pure]
    exact ⟨_, _, ih _ _, rfl, rfl⟩
  | monitor =>
    simp only [Fragment.link, linkArgs, yields_pure, and_self]
  | argsNil =>
    simp only [Fragment.link, linkArgList, yields_pure, and_self]
  | argsConstant _ ih =>
    simp only [Fragment.link, linkArgList, yields_bind, yields_pure]
    exact ⟨_, _, ih _ _, rfl, rfl⟩
  | @argsBlock value _ _ _ _ _ _ hf _ _ ihv ihr =>
    have hany : value.any Block.isFork = false := by simpa using hf
    simp only [Fragment.link, linkArgList, hany, Bool.false_eq_true, if_false, yields_bind,
      yields_pure]
    exact ⟨_, _, ihv _ _, _, _, ihr _ _, rfl, rfl⟩
  | pathsNil =>
    simp only [Fragment.link, linkPaths, yields_pure, and_self]
  | @pathsCons _ c _ _ _ _ _ _ _ _ ihb ihr =>
    cases c with
    | group contents =>
      simp only [Fragment.link, linkPaths, yields_bind, yields_takeId, yields_pure]
      exact ⟨_, _, ihb _ _, _, _, ⟨rfl, rfl⟩, _, _, ihr _ _, rfl, rfl⟩
    | block b =>
      obtain ⟨blocks, hb, rfl⟩ := yields_linkContents_singleton.mp (ihb (path.index i) 0)
      simp only [Fragment.link, linkPaths, yields_bind, yields_takeId, yields_pure]
      refine ⟨_, _, hb, _, _, ⟨rfl, rfl⟩, _, _, ihr _ _, ?_, rfl⟩
      rw [List.map_append]
      rfl
  | contentsNil =>
    simp only [Fragment.link, linkContents, yields_pure, and_self]
  | contentsGroup _ _ ihb ihr =>
    simp only [Fragment.link, linkContents, yields_bind, yields_pure]
    exact ⟨_, _, ihb _ _, _, _, ihr _ _, rfl, rfl⟩
  | contentsBlock _ _ ihb ihr =>
    simp only [Fragment.link, linkContents, yields_bind, yields_pure]
    exact ⟨_, _, ihb _ 0, _, _, ihr _ _, rfl, rfl⟩
  | blocksNil =>
    simp only [Fragment.link, linkBlocks, yields_pure, and_self]
  | blocksCons _ _ ihb ihr =>
    simp only [Fragment.link, linkBlocks, yields_bind, yields_pure]
    exact ⟨_, _, ihb _ 0, _, _, ihr _ _, rfl, rfl⟩

/-- Linking parts one after the other links them together. -/
theorem append {m : Nat} {xs ys xs' ys' : List Block} (hx : Links idAt (.blockList xs) n xs' m)
    (hy : Links idAt (.blockList ys) m ys' k) :
    Links idAt (.blockList (xs ++ ys)) n (xs' ++ ys') k := by
  induction xs generalizing n xs' with
  | nil =>
    cases hx
    exact hy
  | cons b rest ih =>
    cases hx with
    | blocksCons hb hr =>
      rw [List.append_assoc]
      exact .blocksCons hb (ih hr)

/-- Linked arguments are as many as before, with the same literals among them. -/
theorem constants {args linked : List Arg} (h : Links idAt (.argList args) n linked k) :
    Arg.constants args = Arg.constants linked ∧ linked.length = args.length := by
  induction args generalizing n linked with
  | nil =>
    cases h
    exact ⟨rfl, rfl⟩
  | cons arg rest ih =>
    cases h with
    | argsConstant h | argsBlock _ _ h =>
      obtain ⟨hc, hl⟩ := ih h
      simp_all [Arg.constants]

end Links

/-- Linking gives a graph only after checking it. -/
theorem linkGraph_yields {tree g : Graph} :
    (linkGraph idAt tree).Yields n g k ↔
      Links idAt (.blockList tree) n g k ∧ g.verify = .ok [] := by
  simp only [linkGraph, yields_bind]
  constructor
  · rintro ⟨linked, m, hl, h⟩
    split at h
    · obtain ⟨rfl, rfl⟩ := yields_pure.mp h
      exact ⟨.of_yields hl, ‹_›⟩
    · exact (not_yields_throw h).elim
    · exact (not_yields_throw h).elim
  · rintro ⟨hl, hv⟩
    refine ⟨g, k, hl.yields .top 0, ?_⟩
    simp [hv, yields_pure]

end BlockFlow
