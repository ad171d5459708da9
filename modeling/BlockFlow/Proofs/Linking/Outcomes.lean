import Mathlib
import BlockFlow.Proofs.Graph.Places
import BlockFlow.Proofs.Linking.Runs
import BlockFlow.Proofs.Lowering.Trees

/-! How linking a tree ends: with a graph still to be checked, or at a fork that is the value of an
argument. The path of the error then leads to that argument. -/

namespace BlockFlow

namespace Linking

variable {α β : Type} {n k : Nat} {p q : Prop} {found : Path → Prop}

/-- From `n` ids taken to `k` ids taken, linking fails with an error. -/
def Fails (x : Linking α) (n : Nat) (e : LinkError) (k : Nat) : Prop :=
  (x.run.run n).run = (.error e, k)

theorem fails_throw (e : LinkError) : (throw e : Linking α).Fails n e n := by
  simp [Fails]

theorem fails_bind {x : Linking α} {f : α → Linking β} {e : LinkError} :
    (x >>= f).Fails n e k ↔ x.Fails n e k ∨ ∃ a m, x.Yields n a m ∧ (f a).Fails m e k := by
  rcases hx : (x.run.run n).run with ⟨_ | a, m⟩ <;>
    simp [Fails, Yields, ExceptT.run_bind, StateT.run_bind, hx]

theorem Fails.bind {x : Linking α} {e : LinkError} (h : x.Fails n e k) (f : α → Linking β) :
    (x >>= f).Fails n e k :=
  fails_bind.mpr (.inl h)

theorem Yields.bind_fails {x : Linking α} {f : α → Linking β} {a : α} {m : Nat} {e : LinkError}
    (h : x.Yields n a m) (hf : (f a).Fails m e k) : (x >>= f).Fails n e k :=
  fails_bind.mpr (.inr ⟨a, m, h, hf⟩)

/-- Started with `n` ids taken, linking succeeds, or under the condition `forked` fails on a fork in
an argument and gives a path that is `found`. -/
def Settles (x : Linking α) (n : Nat) (forked : Prop) (found : Path → Prop) : Prop :=
  (forked ∧ ∃ path k, x.Fails n (.forkInArgument path) k ∧ found path) ∨
    (¬ forked ∧ ∃ a k, x.Yields n a k)

namespace Settles

theorem congr {x : Linking α} (h : x.Settles n p found) (hpq : p ↔ q) : x.Settles n q found := by
  rwa [← propext hpq]

theorem of_yields {x : Linking α} {a : α} (h : x.Yields n a k) : x.Settles n False found :=
  .inr ⟨id, a, k, h⟩

theorem pure (a : α) : (Pure.pure a : Linking α).Settles n False found :=
  of_yields (yields_pure.mpr ⟨rfl, rfl⟩)

theorem bind {x : Linking α} {f : α → Linking β} (hx : x.Settles n p found)
    (hf : ∀ a k, x.Yields n a k → (f a).Settles k q found) : (x >>= f).Settles n (p ∨ q) found := by
  rcases hx with ⟨hp, path, k, hx, hfound⟩ | ⟨hp, a, m, hx⟩
  · exact .inl ⟨.inl hp, path, k, hx.bind f, hfound⟩
  rcases hf a m hx with ⟨hq, path, k, hfail, hfound⟩ | ⟨hq, b, k, hy⟩
  · exact .inl ⟨.inr hq, path, k, hx.bind_fails hfail, hfound⟩
  · exact .inr ⟨by tauto, b, k, yields_bind.mpr ⟨a, m, hx, hy⟩⟩

/-- Where the rest cannot fail, the condition is that of the first part. -/
theorem bind_pure {x : Linking α} (hx : x.Settles n p found) (f : α → β) :
    (x >>= fun a => Pure.pure (f a)).Settles n p found :=
  (hx.bind (q := False) fun a k _ => pure (f a)).congr (by tauto)

/-- Taking an id cannot fail. -/
theorem takeId {idAt : Nat → String} {f : String → Linking α}
    (hf : ∀ id, (f id).Settles (n + 1) p found) :
    (Linking.takeId idAt >>= f).Settles n p found := by
  have hid : (Linking.takeId idAt).Settles n False found :=
    of_yields (yields_takeId.mpr ⟨rfl, rfl⟩)
  refine (hid.bind fun id k hy => ?_).congr (by rw [false_or])
  obtain ⟨_, rfl⟩ := yields_takeId.mp hy
  exact hf id

end Settles

/-- A path leads to an argument with a fork in its value. -/
def LeadsToFork (d : Json) (base : String) (path : Path) : Prop :=
  path.base = base ∧ ∃ value, d.Leads path (Arg.block value).toJson ∧ ∃ b ∈ value, b.isFork = true

end Linking

/-- Some argument has a fork as its value. -/
def Arg.HoldFork (args : List Arg) : Prop :=
  ∃ value, .block value ∈ args ∧ ∃ f ∈ value, f.isFork = true

/-- Some argument of the block has a fork as its value. -/
def Block.HoldsFork (b : Block) : Prop := Arg.HoldFork b.args.listed

/-- Some argument in the tree has a fork as its value. -/
def Graph.HasForkArgument (t : Graph) : Prop := ∃ b ∈ t.blocks, b.HoldsFork

theorem Arg.holdFork_block {value : List Block} {rest : List Arg} :
    Arg.HoldFork (.block value :: rest) ↔ value.any Block.isFork = true ∨ Arg.HoldFork rest := by
  simp only [Arg.HoldFork, List.mem_cons, Arg.block.injEq, List.any_eq_true]
  constructor
  · rintro ⟨v, rfl | hv, hf⟩
    · exact .inl hf
    · exact .inr ⟨v, hv, hf⟩
  · rintro (hf | ⟨v, hv, hf⟩)
    · exact ⟨value, .inl rfl, hf⟩
    · exact ⟨v, .inr hv, hf⟩

theorem Arg.holdFork_constant {value : String} {rest : List Arg} :
    Arg.HoldFork (.constant value :: rest) ↔ Arg.HoldFork rest := by
  simp [Arg.HoldFork]

open Linking

variable {idAt : Nat → String}

theorem exists_mem_append {P : Block → Prop} {xs ys : List Block} :
    (∃ x ∈ xs ++ ys, P x) ↔ (∃ x ∈ xs, P x) ∨ ∃ x ∈ ys, P x := by
  simp only [List.mem_append, or_and_right, exists_or]

/-- Some argument in a part has a fork as its value. -/
def Fragment.HasForkArgument : Fragment → Prop
  | .arguments args => Arg.HoldFork args.listed ∨ ∃ x ∈ args.blocks, x.HoldsFork
  | .argList args => Arg.HoldFork args ∨ ∃ x ∈ Arg.listBlocks args, x.HoldsFork
  | .block b => ∃ x ∈ b.blocks, x.HoldsFork
  | .paths _ contents | .sequence contents => ∃ x ∈ Content.listBlocks contents, x.HoldsFork
  | .blockList blocks => ∃ x ∈ Block.listBlocks blocks, x.HoldsFork

/-- A document has the part at a path, from the position `i` on if it is a list. A path of a fork
that is a block on its own has no place in a document. -/
def Fragment.IsAt (d : Json) (path : Path) (i : Nat) : Fragment → Prop
  | .block b => d.Leads path b.toJson
  | .arguments args => d.Leads path.args args.toJson
  | .argList args => d.LeadsFrom path i (Arg.listToJson args)
  | .paths _ contents =>
    (∀ c ∈ contents, ∃ blocks : List Block, c = .group (blocks.map .block)) ∧
      d.LeadsFrom path i (Content.listToJson contents)
  | .sequence contents => d.LeadsFrom path i (Content.listToJson contents)
  | .blockList blocks => d.LeadsFrom path i (Block.listToJson blocks)

theorem Fragment.settles (p : Fragment) {d : Json} {path : Path} {i n : Nat}
    (ht : ∀ x ∈ p.before, x.Lowered) (hd : p.IsAt d path i) :
    (p.link idAt path i).Settles n p.HasForkArgument (LeadsToFork d path.base) := by
  induction p using Fragment.induction generalizing path i n with
  | block id type args contents iha ihp ihc =>
    obtain ⟨hb, ha, hc⟩ := Block.forall_blocks.mp ht
    have hforked : (∃ x ∈ (Block.mk id type args contents).blocks, x.HoldsFork) ↔
        (Arg.HoldFork args.listed ∨ ∃ x ∈ args.blocks, x.HoldsFork) ∨
          ∃ x ∈ Content.listBlocks contents, x.HoldsFork := by
      simp only [Block.blocks, List.mem_cons, List.mem_append, or_and_right, exists_or,
        exists_eq_left, or_assoc]
      rfl
    refine Settles.congr ?_ hforked.symm
    rw [Fragment.link, linkBlock]
    refine Settles.takeId fun id' => (iha (i := 0) ha (leads_args hd)).bind fun args' m' hy => ?_
    split
    · next hf =>
      -- a lowered fork has listed arguments, and linking keeps them so
      obtain ⟨listed, rfl⟩ : ∃ listed, args = .list listed := hb.fork_args hf
      cases Links.of_yields hy with
      | list _ =>
        exact Settles.takeId fun joinId =>
          (ihp joinId hc ⟨hb.groups, leads_contents hd⟩).bind_pure _
    · exact (ihc hc (leads_contents hd)).bind_pure _
  | list args ih =>
    rw [Fragment.link, linkArgs]
    exact (ih ht (leads_argList hd)).bind_pure _
  | monitor descriptor =>
    rw [Fragment.link, linkArgs]
    exact (Settles.pure _).congr
      (by simp [Fragment.HasForkArgument, Arg.HoldFork, Args.listed, Args.blocks])
  | call serviceId serviceAction values ih =>
    rw [Fragment.link, linkArgs]
    exact (ih ht (leads_callValues hd)).bind_pure _
  | argsNil =>
    rw [Fragment.link, linkArgList]
    exact (Settles.pure _).congr (by simp [Fragment.HasForkArgument, Arg.HoldFork, Arg.listBlocks])
  | argsConstant value rest ih =>
    rw [Fragment.link, linkArgList]
    refine ((ih ht hd.cons.2).bind_pure _).congr ?_
    rw [Fragment.HasForkArgument, Fragment.HasForkArgument, Arg.holdFork_constant, Arg.listBlocks]
  | argsBlock value rest ihv ihr =>
    obtain ⟨hv, hr⟩ := List.forall_mem_append.mp ht
    rw [Fragment.link, linkArgList, Fragment.HasForkArgument, Arg.holdFork_block, Arg.listBlocks,
      exists_mem_append]
    split
    · next hf =>
      simp only [hf, true_or]
      exact .inl ⟨trivial, _, n, (fails_throw _).bind _, rfl, value, hd.cons.1,
        List.any_eq_true.mp hf⟩
    · next hf =>
      simp only [hf, Bool.false_eq_true, false_or]
      exact ((ihv hv (leads_value hd.cons.1)).bind fun _ _ _ =>
        (ihr hr hd.cons.2).bind_pure _).congr or_left_comm
  | pathsNil joinId =>
    rw [Fragment.link, linkPaths]
    exact (Settles.pure _).congr (by simp [Fragment.HasForkArgument, Content.listBlocks])
  | pathsCons joinId c rest ihc ihr =>
    obtain ⟨hg, hd⟩ := hd
    obtain ⟨blocks, rfl⟩ := hg c List.mem_cons_self
    obtain ⟨hc, hr⟩ := List.forall_mem_append.mp ht
    have hrest := fun m => ihr (n := m) hr ⟨fun c hc => hg c (List.mem_cons_of_mem _ hc), hd.cons.2⟩
    rw [Fragment.link, linkPaths, Fragment.HasForkArgument, Content.listBlocks, exists_mem_append]
    exact (ihc hc (leads_body hd.cons.1)).bind fun _ m _ =>
      Settles.takeId fun _ => (hrest (m + 1)).bind_pure _
  | contentsNil =>
    rw [Fragment.link, linkContents]
    exact (Settles.pure _).congr (by simp [Fragment.HasForkArgument, Content.listBlocks])
  | contentsGroup contents rest ihc ihr =>
    obtain ⟨hc, hr⟩ := List.forall_mem_append.mp ht
    rw [Fragment.link, linkContents, Fragment.HasForkArgument, Content.listBlocks,
      exists_mem_append]
    exact (ihc hc (leads_body hd.cons.1)).bind fun _ _ _ => (ihr hr hd.cons.2).bind_pure _
  | contentsBlock b rest ihb ihr =>
    obtain ⟨hb, hr⟩ := List.forall_mem_append.mp ht
    rw [Fragment.link, linkContents, Fragment.HasForkArgument, Content.listBlocks,
      exists_mem_append]
    exact (ihb (i := 0) hb hd.cons.1).bind fun _ _ _ => (ihr hr hd.cons.2).bind_pure _
  | blocksNil =>
    rw [Fragment.link, linkBlocks]
    exact (Settles.pure _).congr (by simp [Fragment.HasForkArgument, Block.listBlocks])
  | blocksCons b rest ihb ihr =>
    obtain ⟨hb, hr⟩ := List.forall_mem_append.mp ht
    rw [Fragment.link, linkBlocks, Fragment.HasForkArgument, Block.listBlocks, exists_mem_append]
    exact (ihb (i := 0) hb hd.cons.1).bind fun _ _ _ => (ihr hr hd.cons.2).bind_pure _

/-- Linking a tree gives the blocks to be checked, or fails at a fork in an argument. -/
theorem Graph.settles {tree : Graph} (ht : tree.IsTree) (n : Nat) :
    (linkBlocks idAt .top 0 tree).Settles n tree.HasForkArgument (LeadsToFork tree.toJson "") :=
  (Fragment.blockList tree).settles ht tree.toJson.leads_top.items

/-- The path of a fork in an argument leads to the argument. -/
theorem linkGraph_locates {tree : Graph} (ht : tree.IsTree) {n k : Nat} {path : Path}
    (h : (linkGraph idAt tree).Fails n (.forkInArgument path) k) :
    LeadsToFork tree.toJson "" path := by
  rcases fails_bind.mp h with h | ⟨g, m, _, h⟩
  · rcases Graph.settles ht n with ⟨_, path', k', hf, hfound⟩ | ⟨_, g, m, hy⟩
    · cases h.symm.trans hf
      exact hfound
    · cases h.symm.trans hy
  · -- the check finds other faults
    split at h <;> simp [Fails] at h

/-! ### Linking with ids from a supply -/

variable {k : Nat} {s t : IdSupply} {tree g : Graph}

theorem IdSupply.link_of_fails {e : LinkError} (h : (linkGraph s.idAt tree).Fails 0 e k) :
    s.link tree = (.error e, s.advance k) := by
  have hr : (linkGraph s.idAt tree).run.run 0 = (.error e, k) := h
  simp only [IdSupply.link, hr]

theorem IdSupply.link_of_yields (h : (linkGraph s.idAt tree).Yields 0 g k) :
    s.link tree = (.ok g, s.advance k) := by
  have hr : (linkGraph s.idAt tree).run.run 0 = (.ok g, k) := h
  simp only [IdSupply.link, hr]

/-- A linking fails or gives a graph, and either way takes some ids. -/
theorem IdSupply.link_cases (s : IdSupply) (tree : Graph) :
    (∃ e k, s.link tree = (.error e, s.advance k)) ∨
      ∃ g k, (linkGraph s.idAt tree).Yields 0 g k ∧ s.link tree = (.ok g, s.advance k) := by
  rcases hr : (linkGraph s.idAt tree).run.run 0 with ⟨e | g, k⟩
  · exact .inl ⟨e, k, link_of_fails hr⟩
  · exact .inr ⟨g, k, hr, link_of_yields hr⟩

theorem IdSupply.yields_of_link (h : s.link tree = (.ok g, t)) :
    ∃ k, (linkGraph s.idAt tree).Yields 0 g k ∧ t = s.advance k := by
  rcases s.link_cases tree with ⟨e, k, he⟩ | ⟨g', k, hy, he⟩
  · simp [he] at h
  · obtain ⟨hg, rfl⟩ := Prod.ext_iff.mp (he.symm.trans h)
    cases hg
    exact ⟨k, hy, rfl⟩

end BlockFlow
