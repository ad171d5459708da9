import Mathlib
import BlockFlow.Proofs.Canonical.LinkedForms
import BlockFlow.Proofs.Compilation
import BlockFlow.Proofs.Json.StableTexts

/-! Canonical forms depend on ids exactly where an operation that canonicalization does not enter
encloses a fork. -/

namespace BlockFlow

open Canonicalizing Linking

mutual

theorem Block.blocks_withoutIds : ∀ (b : Block),
    b.withoutIds.blocks = b.blocks.map Block.withoutIds
  | .mk id type args contents => by
    simp [Block.withoutIds, Block.blocks, Args.blocks_withoutIds args,
      Content.listBlocks_dropIds contents]

theorem Args.blocks_withoutIds : ∀ (args : Args),
    args.withoutIds.blocks = args.blocks.map Block.withoutIds
  | .list args => Arg.listBlocks_dropIds args
  | .monitor _ => rfl
  | .call _ _ values => Arg.listBlocks_dropIds values

theorem Arg.listBlocks_dropIds : ∀ (args : List Arg),
    Arg.listBlocks (Arg.dropIds args) = (Arg.listBlocks args).map Block.withoutIds
  | [] => rfl
  | .constant _ :: rest => Arg.listBlocks_dropIds rest
  | .block value :: rest => by
    simp [Arg.dropIds, Arg.withoutIds, Arg.listBlocks, Block.listBlocks_dropIds value,
      Arg.listBlocks_dropIds rest]

theorem Content.listBlocks_dropIds : ∀ (contents : List Content),
    Content.listBlocks (Content.dropIds contents) =
      (Content.listBlocks contents).map Block.withoutIds
  | [] => rfl
  | .block b :: rest => by
    simp [Content.dropIds, Content.withoutIds, Content.listBlocks, Block.blocks_withoutIds b,
      Content.listBlocks_dropIds rest]
  | .group contents :: rest => by
    simp [Content.dropIds, Content.withoutIds, Content.listBlocks,
      Content.listBlocks_dropIds contents, Content.listBlocks_dropIds rest]

theorem Block.listBlocks_dropIds : ∀ (blocks : List Block),
    Block.listBlocks (Block.dropIds blocks) = (Block.listBlocks blocks).map Block.withoutIds
  | [] => rfl
  | b :: rest => by
    simp [Block.dropIds, Block.listBlocks, Block.blocks_withoutIds b,
      Block.listBlocks_dropIds rest]

end

def Block.isJoin (b : Block) : Bool :=
  b.type == Operation.triggerWhenFirstCompleted.tag ||
    b.type == Operation.triggerWhenAllCompleted.tag

/-- A block that seals off a fork. -/
def Block.SealsFork (b : Block) : Prop := b.isSealed = true ∧ ∃ f ∈ b.blocks, f.isFork = true

/-- The joins among linked blocks and among their canonical forms, for blocks `source` of a tree. -/
structure Joined (idAt : Nat → String) (source linked formed : List Block) : Prop where
  linked_join : ∀ x ∈ linked, x.isJoin = true → ∃ m, x.args = constant (idAt m)
  exists_join : (∃ f ∈ source, f.isFork = true) → ∃ x ∈ linked, x.isJoin = true
  formed_join : ∀ x ∈ formed, x.isJoin = true → ∃ target, x.args = constant target ∧
    (target = "@" ++ Operation.forkExecution.tag ∨ ∃ m, target = idAt m)
  formed_raw : (∃ b ∈ source, b.SealsFork) →
    ∃ x ∈ formed, x.isJoin = true ∧ ∃ m, x.args = constant (idAt m)

namespace Joined

variable {idAt : Nat → String} {s s' l l' f f' : List Block}

theorem nil : Joined idAt [] [] [] := ⟨by simp, by simp, by simp, by simp⟩

theorem append (h : Joined idAt s l f) (h' : Joined idAt s' l' f') :
    Joined idAt (s ++ s') (l ++ l') (f ++ f') := by
  have split {P Q : Block → Prop} {xs ys us vs : List Block} (hx : (∃ x ∈ xs, P x) → ∃ u ∈ us, Q u)
      (hy : (∃ y ∈ ys, P y) → ∃ v ∈ vs, Q v) (he : ∃ x ∈ xs ++ ys, P x) : ∃ u ∈ us ++ vs, Q u := by
    simp only [List.mem_append, or_and_right, exists_or] at he ⊢
    exact he.imp hx hy
  refine ⟨?_, split h.exists_join h'.exists_join, ?_, split h.formed_raw h'.formed_raw⟩
  · intro x hx
    exact (List.mem_append.mp hx).elim (h.linked_join x) (h'.linked_join x)
  · intro x hx
    exact (List.mem_append.mp hx).elim (h.formed_join x) (h'.formed_join x)

/-- Only the members of the lists count. -/
theorem congr (h : Joined idAt s l f) (hs : ∀ x, x ∈ s' ↔ x ∈ s) (hl : ∀ x, x ∈ l' ↔ x ∈ l)
    (hf : ∀ x, x ∈ f' ↔ x ∈ f) : Joined idAt s' l' f' := by
  constructor <;> simp only [hs, hl, hf]
  · exact h.linked_join
  · exact h.exists_join
  · exact h.formed_join
  · exact h.formed_raw

/-- A block that is no fork, in front of what it holds. -/
theorem cons (h : Joined idAt s l f) (b b' b'' : Block) (hb : b.isFork = false)
    (hl : b'.isJoin = false) (hf : b''.isJoin = false)
    (hs : b.SealsFork → ∃ x ∈ f, x.isJoin = true ∧ ∃ m, x.args = constant (idAt m)) :
    Joined idAt (b :: s) (b' :: l) (b'' :: f) := by
  refine ⟨?_, ?_, ?_, ?_⟩
  · simpa [hl] using h.linked_join
  · simpa [hb, hl] using h.exists_join
  · simpa [hf] using h.formed_join
  · simp only [List.mem_cons, exists_eq_or_imp, or_imp]
    refine ⟨fun hbs => .inr (hs hbs), fun hr => .inr (h.formed_raw hr)⟩

/-- Where ids are dropped and nothing else happens, a join keeps the id it refers to. -/
theorem exists_raw (h : Joined idAt s l f) (hs : ∃ b ∈ s, b.isFork = true) :
    ∃ x ∈ l.map Block.withoutIds, x.isJoin = true ∧ ∃ m, x.args = constant (idAt m) := by
  obtain ⟨⟨id, type, args, contents⟩, hx, hj⟩ := h.exists_join hs
  obtain ⟨m, rfl⟩ := h.linked_join _ hx hj
  exact ⟨_, List.mem_map_of_mem hx, hj, m, rfl⟩

theorem withoutIds (h : Joined idAt s l f) (hs : ∀ b ∈ s, ∀ x ∈ b.blocks, x ∈ s) :
    Joined idAt s l (l.map Block.withoutIds) := by
  refine ⟨h.linked_join, h.exists_join, ?_, ?_⟩
  · intro x hx hj
    obtain ⟨⟨id, type, args, contents⟩, hy, rfl⟩ := List.mem_map.mp hx
    obtain ⟨m, rfl⟩ := h.linked_join _ hy hj
    exact ⟨idAt m, rfl, .inr ⟨m, rfl⟩⟩
  · rintro ⟨b, hb, _, fork, hf, hk⟩
    exact h.exists_raw ⟨fork, hs b hb fork hf, hk⟩

end Joined

theorem not_isJoin {type : String} (h : isLinkPrimitive type = false) (id : Json) (args : Args)
    (contents : List Content) : (Block.mk id type args contents).isJoin = false := by
  rw [Bool.eq_false_iff]
  intro hj
  simp only [Block.isJoin, Block.type, Bool.or_eq_true, beq_iff_eq] at hj
  rcases hj with rfl | rfl <;> exact absurd h (by decide)

variable {typeOf : String → Option String} {idAt : Nat → String}

/-- A jump is no join. -/
theorem Joined.snoc {s l f : List Block} (h : Joined idAt s l f) (id target join : String) :
    Joined idAt s (l ++ [jump id target]) (f ++ [jumpForm join]) := by
  have hj : (jump id target).isJoin = false := rfl
  have hf : (jumpForm join).isJoin = false := rfl
  have hjump : Joined idAt [] [jump id target] [jumpForm join] :=
    ⟨by simp [hj], by simp, by simp [hf], by simp⟩
  simpa using h.append hjump

theorem blocks_resolveReferences (type : String) (args : Args) :
    (resolveReferences typeOf type args).blocks = args.blocks := by
  cases args with
  | list args =>
    simp only [resolveReferences]
    split
    · simp only [Args.blocks, Arg.listBlocks_eq, List.flatMap_map]
      congr 1
      funext a
      cases a <;> rfl
    · rfl
  | _ => rfl

theorem mem_blocks_sortArgs {args : Args} {x : Block} :
    x ∈ (sortArgs args).blocks ↔ x ∈ args.blocks := by
  cases args with
  | list args => exact (Arg.listBlocks_perm (sortByText_perm Arg.toJson args)).mem_iff
  | _ => rfl

theorem blocks_dropDefaultExit (args : Args) : (dropDefaultExit args).blocks = args.blocks := by
  cases args with
  | list args =>
    simp only [dropDefaultExit, Args.blocks]
    induction args with
    | nil => rfl
    | cons a rest ih =>
      cases a with
      | constant value => by_cases h : value = exitWhenAllCompleted <;> simp [h, ih, Arg.listBlocks]
      | block value => simp [ih, Arg.listBlocks]
  | _ => rfl

theorem blocks_form {args : Args} (h : args.isCall = false) :
    (args.form typeOf).blocks = Arg.listBlocks (Arg.forms typeOf args.listed) := by
  cases args with
  | call => cases h
  | _ => rfl

theorem blocks_callForm {args : Args} (h : args.isCall = true) :
    (args.callForm typeOf).blocks = Arg.listBlocks (Arg.forms typeOf args.listed) := by
  cases args with
  | call => rfl
  | _ => cases h

/-- The joins in the copy of a block that is no fork, from those in its arguments and contents. -/
theorem joined_copy {id id' : Json} {type : String} {args args' : Args}
    {contents contents' : List Content} (hp : isLinkPrimitive type = false)
    (hf : type ≠ Operation.forkExecution.tag)
    (hcall : args'.isCall = true ↔ Treatment.ofTag type = .serviceCall)
    (hnil : Treatment.ofTag type ≠ .ordered → contents = [] ∧ contents' = [])
    (ha : Joined idAt args.blocks args'.blocks (Arg.listBlocks (Arg.forms typeOf args'.listed)))
    (hc : Joined idAt (Content.listBlocks contents) (Content.listBlocks contents')
      (Content.listBlocks (Content.forms typeOf contents'))) :
    Joined idAt (Block.mk id type args contents).blocks (Block.mk id' type args' contents').blocks
      ((Block.mk id' type args' contents').form typeOf).blocks := by
  have hbf : (Block.mk id type args contents).isFork = false := by
    simpa [Block.isFork, Block.type] using hf
  have sealedCase (hn : contents = [] ∧ contents' = []) {A : Args}
      (hA : A.blocks = args'.blocks.map Block.withoutIds) :
      Joined idAt (Block.mk id type args contents).blocks
        (Block.mk id' type args' contents').blocks (Block.mk .null type A []).blocks := by
    obtain ⟨rfl, rfl⟩ := hn
    have hw := ha.withoutIds fun b hb x hx => args.mem_blocks_trans hb hx
    rw [← hA] at hw
    refine (hw.append .nil).cons _ _ _ hbf (not_isJoin hp _ _ _) (not_isJoin hp _ _ _) ?_
    rintro ⟨_, fork, hx, hk⟩
    rcases Block.mem_blocks.mp hx with rfl | hx | hx
    · simp [hbf] at hk
    · simpa [hA] using ha.exists_raw ⟨fork, hx, hk⟩
    · cases hx
  have openCase (hs : (Block.mk id type args contents).isSealed = false) {A : Args}
      {C : List Content}
      (hA : ∀ x, x ∈ A.blocks ↔ x ∈ Arg.listBlocks (Arg.forms typeOf args'.listed))
      (hC : C = Content.forms typeOf contents') :
      Joined idAt (Block.mk id type args contents).blocks
        (Block.mk id' type args' contents').blocks (Block.mk .null type A C).blocks := by
    subst hC
    refine ((ha.congr (by simp) (by simp) hA).append hc).cons _ _ _ hbf (not_isJoin hp _ _ _)
      (not_isJoin hp _ _ _) ?_
    rintro ⟨hsealed, _⟩
    simp [hs] at hsealed
  cases ht : Treatment.ofTag type with
  | stripped =>
    have hn := hnil (by simp [ht])
    simpa [Block.form, ht, hn.2, Content.dropIds] using
      sealedCase hn (by rw [blocks_resolveReferences, Args.blocks_withoutIds])
  | unknown =>
    have hn := hnil (by simp [ht])
    simpa [Block.form, ht, hn.2, Content.dropIds] using sealedCase hn (Args.blocks_withoutIds args')
  | ordered =>
    have hl : args'.isCall = false := by simpa [ht] using hcall
    have hs : (Block.mk id type args contents).isSealed = false := by
      simp [Block.isSealed, Block.type, ht]
    simpa [Block.form, ht] using
      openCase hs (by simp [blocks_resolveReferences, blocks_form hl]) rfl
  | serviceCall =>
    have hn := hnil (by simp [ht])
    have hs : (Block.mk id type args contents).isSealed = false := by
      simp [Block.isSealed, Block.type, ht]
    simpa [Block.form, ht] using
      openCase hs (by simp [blocks_callForm (hcall.mpr ht)])
        (by simp [hn.2, Content.dropIds, Content.forms])
  | commutative =>
    have hn := hnil (by simp [ht])
    have hl : args'.isCall = false := by simpa [ht] using hcall
    have hs : (Block.mk id type args contents).isSealed = false := by
      simp [Block.isSealed, Block.type, ht]
    simpa [Block.form, ht] using
      openCase hs (by simp [mem_blocks_sortArgs, blocks_form hl])
        (by simp [hn.2, Content.dropIds, Content.forms])
  | fork => exact (hf (treatment_fork ht)).elim

theorem isJoin_join (id fork : String) (args : List Arg) : (join id fork args).isJoin = true := by
  unfold join joinType
  split <;> rfl

/-- The joins in a linked fork: its own, and those in its arguments and paths. -/
theorem joined_fork {id : Json} {args : Args} {listed : List Arg} {contents paths : List Content}
    {n m : Nat} (hn : typeOf (idAt n) = some Operation.forkExecution.tag)
    (ha : Joined idAt args.blocks (Arg.listBlocks listed)
      (Arg.listBlocks (Arg.forms typeOf listed)))
    (hc : Joined idAt (Content.listBlocks contents) (Content.listBlocks paths)
      (Content.listBlocks (Content.forms typeOf paths))) :
    let fork := Block.mk (.str (idAt n)) Operation.forkExecution.tag (.list listed) paths
    let join := Linking.join (idAt m) (idAt n) listed
    Joined idAt (Block.mk id Operation.forkExecution.tag args contents).blocks
      (Block.listBlocks [fork, join]) (Block.listBlocks (Block.forms typeOf [fork, join])) := by
  intro fork join
  have ht : Treatment.ofTag Operation.forkExecution.tag = .fork := by decide
  have hp : isLinkPrimitive Operation.forkExecution.tag = false := by decide
  have hs : ¬ (Block.mk id Operation.forkExecution.tag args contents).SealsFork :=
    fun h => absurd h.1 (by simp [Block.isSealed, Block.type, ht])
  have own : Joined idAt [.mk id Operation.forkExecution.tag args contents] [fork, join]
      [fork.form typeOf, joinForm (joinType listed).tag] := by
    refine ⟨?_, fun _ => ⟨join, by simp, isJoin_join _ _ _⟩, ?_, by simp [hs]⟩
    · intro x hx hj
      rcases List.mem_pair.mp hx with rfl | rfl
      · simp [fork, not_isJoin hp] at hj
      · exact ⟨n, rfl⟩
    · intro x hx hj
      rcases List.mem_pair.mp hx with rfl | rfl
      · simp [fork, Block.form, ht, not_isJoin hp] at hj
      · exact ⟨_, rfl, .inl rfl⟩
  have hform : Block.forms typeOf [fork, join] =
      [fork.form typeOf, joinForm (joinType listed).tag] := by
    rw [Block.forms, Block.forms, form_join listed hn, Block.forms]
  rw [hform]
  refine (own.append (ha.append hc)).congr ?_ ?_ ?_
  · simp [Block.blocks]
  · intro x
    have hj : join.blocks = [join] := rfl
    simp only [Block.listBlocks, hj, fork, Block.blocks, Args.blocks, List.mem_append,
      List.mem_cons, List.not_mem_nil]
    tauto
  · intro x
    have hj : (joinForm (joinType listed).tag).blocks = [joinForm (joinType listed).tag] := rfl
    have hp := (Content.listBlocks_perm
      (sortByText_perm Content.toJson (Content.forms typeOf paths))).mem_iff (a := x)
    simp only [Block.listBlocks, hj, fork, Block.form, ht, Block.blocks, blocks_dropDefaultExit,
      Args.form, Args.blocks, List.mem_append, List.mem_cons, List.not_mem_nil, hp]
    tauto

/-- A block of a tree that is no linking primitive. -/
def Block.Unsynchronized (b : Block) : Prop := b.Lowered ∧ isLinkPrimitive b.type = false

/-- The blocks of the canonical form of what a part is linked to. -/
def Fragment.formed (typeOf : String → Option String) : (p : Fragment) → p.Linked → List Block
  | .block _, linked | .blockList _, linked => Block.listBlocks (Block.forms typeOf linked)
  | .arguments _, linked => Arg.listBlocks (Arg.forms typeOf linked.listed)
  | .argList _, linked => Arg.listBlocks (Arg.forms typeOf linked)
  | .paths _ _, linked | .sequence _, linked => Content.listBlocks (Content.forms typeOf linked)

theorem Fragment.formed_pathsCons {joinId join : String} {contents : List Content}
    (hj : typeOf joinId = some join) (id : String) (body rest : List Content) :
    (Fragment.paths joinId contents).formed typeOf
        (.group (body ++ [.block (jump id joinId)]) :: rest) =
      Content.listBlocks (Content.forms typeOf body) ++ [jumpForm join] ++
        Content.listBlocks (Content.forms typeOf rest) := by
  have hb : (jumpForm join).blocks = [jumpForm join] := rfl
  simp [Fragment.formed, Content.forms, contentForms_append, form_jump hj, Content.listBlocks, hb]

theorem Links.joined {p : Fragment} {n k : Nat} {r : p.Linked} (h : Links idAt p n r k)
    (ho : ∀ x ∈ p.before, x.Unsynchronized) (hr : ∀ x ∈ p.after r, Resolves typeOf x)
    (join : String) (hj : p.JoinResolves typeOf join) :
    Joined idAt p.before (p.after r) (p.formed typeOf r) := by
  induction h generalizing join with
  | @plain id type args args' contents contents' n m k hf ha' hc' iha ihc =>
    obtain ⟨hb, ha, hc⟩ := Block.forall_blocks.mp ho
    simp only [Fragment.after, Block.listBlocks, List.append_nil] at hr
    obtain ⟨_, hra, hrc⟩ := Block.forall_blocks.mp hr
    have hcall : args'.isCall = true ↔ Treatment.ofTag type = .serviceCall := by
      rw [ha'.isCall]
      exact hb.1.isCall_iff
    have hcopy : Joined idAt (Block.mk id type args contents).blocks
        (Block.mk (.str (idAt n)) type args' contents').blocks
        ((Block.mk (.str (idAt n)) type args' contents').form typeOf).blocks :=
      joined_copy hb.2 hf hcall (hc'.eq_nil hb.1 hf) (iha ha hra join trivial)
        (ihc hc hrc join trivial)
    simpa [Fragment.before, Fragment.after, Fragment.formed, Block.listBlocks, Block.forms] using
      hcopy
  | fork _ _ iha ihp =>
    obtain ⟨_, ha, hc⟩ := Block.forall_blocks.mp ho
    simp only [Fragment.after, Block.listBlocks, List.append_nil, List.forall_mem_append] at hr
    obtain ⟨hrf, hra, hrp⟩ := Block.forall_blocks.mp hr.1
    have hjoin := hr.2 _ (Block.mem_blocks_self _) _ rfl
    exact joined_fork (hrf _ rfl) (iha ha hra join trivial) (ihp hc hrp _ hjoin)
  | list _ ih | call _ ih | argsConstant _ ih => exact ih ho hr join trivial
  | monitor | argsNil | pathsNil | contentsNil | blocksNil => exact .nil
  | argsBlock _ _ _ ihb ihr | contentsGroup _ _ ihb ihr =>
    obtain ⟨hob, hor⟩ := List.forall_mem_append.mp ho
    obtain ⟨hrb, hrr⟩ := List.forall_mem_append.mp hr
    exact (ihb hob hrb join trivial).append (ihr hor hrr join trivial)
  | @pathsCons joinId _ _ _ _ _ m _ _ _ ihb ihr =>
    rw [Fragment.before_pathsCons, List.forall_mem_append] at ho
    rw [Fragment.after_pathsCons, List.forall_mem_append, List.forall_mem_append] at hr
    have hpath := (ihb ho.1 hr.1.1 join trivial).snoc (idAt m) joinId join
    rw [Fragment.before_pathsCons, Fragment.after_pathsCons, Fragment.formed_pathsCons hj]
    exact hpath.append (ihr ho.2 hr.2 join hj)
  | contentsBlock _ _ ihb ihr =>
    obtain ⟨hob, hor⟩ := List.forall_mem_append.mp ho
    rw [Fragment.after_contentsBlock, List.forall_mem_append] at hr
    rw [Fragment.after_contentsBlock, Fragment.formed, contentForms_append, contentForms_map_block,
      Content.listBlocks_append, Content.listBlocks_map_block]
    exact (ihb hob hr.1 join trivial).append (ihr hor hr.2 join trivial)
  | blocksCons _ _ ihb ihr =>
    obtain ⟨hob, hor⟩ := List.forall_mem_append.mp ho
    rw [Fragment.after_blocksCons, List.forall_mem_append] at hr
    rw [Fragment.after_blocksCons, Fragment.formed, blockForms_append, Block.listBlocks_append]
    exact (ihb hob hr.1 join trivial).append (ihr hor hr.2 join trivial)

/-- The joins in a linked graph and in its canonical form. -/
theorem linkGraph_joined {tree g : Graph} {n k : Nat} (hu : ∀ b ∈ tree.blocks, b.Unsynchronized)
    (h : (linkGraph idAt tree).Yields n g k) :
    Joined idAt tree.blocks g.blocks (Block.listBlocks (Block.forms g.typeAt g)) := by
  obtain ⟨hy, hv⟩ := linkGraph_yields.mp h
  exact hy.joined hu (fun x hx id => typeAt_of_verify hv hx) "" trivial

/-- With ids that have nothing in common, equal forms show that no fork is sealed off: the id in a
join that stayed as it was would be an id of the other side, or the reference to a fork on both. -/
theorem not_sealsFork_of_joined {idAt₁ idAt₂ : Nat → String} {s l₁ l₂ f : List Block}
    (hd : ∀ m n, idAt₁ m ≠ idAt₂ n) (h₁ : Joined idAt₁ s l₁ f) (h₂ : Joined idAt₂ s l₂ f) :
    ∀ b ∈ s, ¬ b.SealsFork := by
  intro b hb hs
  obtain ⟨x, hx, hxj, m, hm⟩ := h₁.formed_raw ⟨b, hb, hs⟩
  obtain ⟨y, hy, hyj, n, hn⟩ := h₂.formed_raw ⟨b, hb, hs⟩
  obtain ⟨t, ht, htx⟩ := h₂.formed_join x hx hxj
  obtain ⟨u, hu, huy⟩ := h₁.formed_join y hy hyj
  have hmt : idAt₁ m = t := by simpa [constant] using hm.symm.trans ht
  have hnu : idAt₂ n = u := by simpa [constant] using hn.symm.trans hu
  rcases htx with rfl | ⟨j, rfl⟩
  · rcases huy with rfl | ⟨i, rfl⟩
    · exact hd m n (hmt.trans hnu.symm)
    · exact hd i n hnu.symm
  · exact hd m j hmt

/-- The canonical forms of two compilations of a program agree if no operation that
canonicalization does not enter holds a fork; if there is such an operation, they differ whenever
the ids of the two compilations do. -/
theorem canonical_eq_of_no_sealed_fork {w₁ w₂ : Workspace} {program : Json} {g₁ g₂ : Graph}
    (h₁ : (Work.compile .current true program).Returns w₁ g₁)
    (h₂ : (Work.compile .current true program).Returns w₂ g₂)
    (hp : ∀ o ∈ program.operations, isLinkPrimitive o.type = false) :
    ∃ c₁ c₂, (g₁.canonical false).outcome = .ok c₁ ∧ (g₂.canonical false).outcome = .ok c₂ ∧
      ((∀ o ∈ program.operations, ¬ o.SealsFork) → c₁ = c₂) ∧
      ((∀ m n, w₁.ids.idAt m ≠ w₂.ids.idAt n) → c₁ = c₂ →
        ∀ o ∈ program.operations, ¬ o.SealsFork) := by
  obtain ⟨tree, k₁, ht, hy₁⟩ := compile_returns h₁
  obtain ⟨tree', k₂, ht', hy₂⟩ := compile_returns h₂
  obtain rfl : tree = tree' := Option.some.inj (ht.symm.trans ht')
  have hops : program.operations = tree.blocks := by simp [Json.operations, ht]
  rw [hops] at hp ⊢
  have hl := isTree_of_tree? ht
  have hu : ∀ b ∈ tree.blocks, b.Unsynchronized := fun b hb => ⟨hl b hb, hp b hb⟩
  refine ⟨_, _, canonical_of_verify (linkGraph_yields.mp hy₁).2,
    canonical_of_verify (linkGraph_yields.mp hy₂).2, ?_, ?_⟩
  · intro hs
    have ho : ∀ b ∈ tree.blocks, b.Open := fun b hb =>
      ⟨hl b hb, hp b hb, fun hsealed x hx => by
        by_contra hf
        exact hs b hb ⟨hsealed, x, hx, by simpa using hf⟩⟩
    have e₁ := canonical_of_verify (linkGraph_yields.mp hy₁).2
    have e₂ := canonical_of_verify (linkGraph_yields.mp hy₂).2
    rw [canonical_linkGraph ho hy₁] at e₁
    rw [canonical_linkGraph ho hy₂] at e₂
    exact (Except.ok.inj e₁).symm.trans (Except.ok.inj e₂)
  · intro hd hc
    have j₁ := linkGraph_joined hu hy₁
    rw [hc] at j₁
    exact not_sealsFork_of_joined hd j₁ (linkGraph_joined hu hy₂)

/-- A fork in a branch of a conditional, which is an argument of an operation that
canonicalization does not enter. -/
def sealedFork : Json :=
  .arr [.arr [.str "flow_last_value", .arr [.str "control_if_else", .str "c",
    .arr [.arr [.str "op_fork_execution", .arr [], .arr []]]]]]

def sealedForkGraph (label : String) : Graph :=
  [.mk (.str (label ++ "1")) "flow_last_value" (.list [.block
    [.mk (.str (label ++ "2")) "control_if_else" (.list [.constant "c"])
      [.group [.block (.mk (.str (label ++ "3")) "op_fork_execution" (.list []) []),
        .block (.mk (.str (label ++ "4")) "trigger_when_all_completed"
          (.list [.constant (label ++ "3")]) [])], .group []]]]) []]

theorem sealedFork_canonical_ne :
    ∃ c₁ c₂, ((sealedForkGraph "b").canonical false).outcome = .ok c₁ ∧
      ((sealedForkGraph "x").canonical false).outcome = .ok c₂ ∧ c₁ ≠ c₂ := by
  have hb : (Work.compile .current true sealedFork).Returns (labelledWorkspace "b")
      (sealedForkGraph "b") := ⟨_, rfl⟩
  have hx : (Work.compile .current true sealedFork).Returns (labelledWorkspace "x")
      (sealedForkGraph "x") := ⟨_, rfl⟩
  obtain ⟨c₁, c₂, h₁, h₂, -, hne⟩ := canonical_eq_of_no_sealed_fork hb hx (by decide)
  refine ⟨c₁, c₂, h₁, h₂, fun hc => ?_⟩
  have hd (m n : Nat) :
      (labelledWorkspace "b").ids.idAt m ≠ (labelledWorkspace "x").ids.idAt n := by
    intro h
    have hl := congrArg String.toList h
    simp [labelledWorkspace, Workspace.start, IdSupply.start, IdSupply.idAt] at hl
  exact hne hd hc _ List.mem_cons_self ⟨rfl, by decide⟩

end BlockFlow
