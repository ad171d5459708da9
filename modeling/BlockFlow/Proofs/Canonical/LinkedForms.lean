import Mathlib
import BlockFlow.Proofs.Canonical.Forms
import BlockFlow.Proofs.Linking.Synchronization

/-! The canonical form of a linked tree, read off the tree itself: no id occurs in it. -/

namespace BlockFlow

open Canonicalizing Linking

/-- Only the tags of operations are treated otherwise than by position or as unknown. -/
theorem exists_operation (type : String) (ho : Treatment.ofTag type ≠ .ordered)
    (hu : Treatment.ofTag type ≠ .unknown) : ∃ o : Operation, type = o.tag := by
  cases h : Operation.ofTag? type with
  | none =>
    simp only [Treatment.ofTag, TagKind.ofTag, h] at ho hu
    cases hc : isCustomTag type <;> simp [hc] at ho hu
  | some o => exact ⟨o, Operation.ofTag?_eq_some.mp h⟩

theorem treatment_fork {type : String} (h : Treatment.ofTag type = .fork) :
    type = Operation.forkExecution.tag := by
  obtain ⟨o, rfl⟩ := exists_operation type (by simp [h]) (by simp [h])
  cases o <;> revert h <;> decide

theorem treatment_serviceCall {type : String} (h : Treatment.ofTag type = .serviceCall) :
    type = Operation.callService.tag := by
  obtain ⟨o, rfl⟩ := exists_operation type (by simp [h]) (by simp [h])
  cases o <;> revert h <;> decide

/-- A join after canonicalization, which refers to its fork by type. -/
def joinForm (join : String) : Block :=
  .mk .null join (constant ("@" ++ Operation.forkExecution.tag)) []

/-- A jump after canonicalization, which refers to its join by type. -/
def jumpForm (join : String) : Block :=
  .mk .null Operation.jumpToBlock.tag (constant ("@" ++ join)) []

mutual

/-- What stands for a block of a tree after linking and canonicalization. -/
def Block.linkedForms : Block → List Block
  | .mk _ type args contents =>
    match Treatment.ofTag type with
    | .stripped | .unknown => [.mk .null type args contents]
    | .ordered | .serviceCall =>
      [.mk .null type (Args.linkedForm args) (Content.linkedForms contents)]
    | .commutative =>
      [.mk .null type (sortArgs (Args.linkedForm args)) (Content.linkedForms contents)]
    | .fork =>
      let join := (joinType args.listed).tag
      [.mk .null type (dropDefaultExit (Args.linkedForm args))
        (sortByText Content.toJson (Content.linkedPaths join contents)), joinForm join]

def Args.linkedForm : Args → Args
  | .list args => .list (Arg.linkedForms args)
  | .monitor descriptor => .monitor descriptor
  | .call serviceId serviceAction values => .call serviceId serviceAction (Arg.linkedForms values)

def Arg.linkedForms : List Arg → List Arg
  | [] => []
  | .constant value :: rest => .constant value :: Arg.linkedForms rest
  | .block value :: rest => .block (Block.listLinkedForms value) :: Arg.linkedForms rest

def Content.linkedPaths (join : String) : List Content → List Content
  | [] => []
  | .block b :: rest =>
    .group ((Block.linkedForms b).map .block ++ [.block (jumpForm join)]) ::
      Content.linkedPaths join rest
  | .group contents :: rest =>
    .group (Content.linkedForms contents ++ [.block (jumpForm join)]) ::
      Content.linkedPaths join rest

def Content.linkedForms : List Content → List Content
  | [] => []
  | .block b :: rest => (Block.linkedForms b).map .block ++ Content.linkedForms rest
  | .group contents :: rest => .group (Content.linkedForms contents) :: Content.linkedForms rest

def Block.listLinkedForms : List Block → List Block
  | [] => []
  | b :: rest => Block.linkedForms b ++ Block.listLinkedForms rest

end

mutual

theorem Block.withoutIds_eq_unlinked : ∀ (b : Block), (∀ x ∈ b.blocks, x.isFork = false) →
    b.withoutIds = b.unlinked
  | .mk id type args contents, h => by
    obtain ⟨hb, ha, hc⟩ := Block.forall_blocks.mp h
    have ht : type ≠ Operation.forkExecution.tag := by simpa [Block.isFork, Block.type] using hb
    simp [Block.withoutIds, Block.unlinked, ht, Args.withoutIds_eq_unlinked args ha,
      Content.dropIds_eq_unlinked contents hc]

theorem Args.withoutIds_eq_unlinked : ∀ (args : Args), (∀ x ∈ args.blocks, x.isFork = false) →
    args.withoutIds = args.unlinked
  | .list args, h => by
    simp [Args.withoutIds, Args.unlinked, Arg.dropIds_eq_unlinked args h]
  | .monitor descriptor, _ => rfl
  | .call serviceId serviceAction values, h => by
    simp [Args.withoutIds, Args.unlinked, Arg.dropIds_eq_unlinked values h]

theorem Arg.dropIds_eq_unlinked : ∀ (args : List Arg),
    (∀ x ∈ Arg.listBlocks args, x.isFork = false) → Arg.dropIds args = Arg.unlinkedList args
  | [], _ => rfl
  | .constant value :: rest, h => by
    simp [Arg.dropIds, Arg.withoutIds, Arg.unlinkedList, Arg.dropIds_eq_unlinked rest h]
  | .block value :: rest, h => by
    simp only [Arg.listBlocks, List.mem_append, or_imp, forall_and] at h
    simp [Arg.dropIds, Arg.withoutIds, Arg.unlinkedList, Arg.dropIds_eq_unlinked rest h.2,
      Block.dropIds_eq_unlinked value h.1]

theorem Content.dropIds_eq_unlinked : ∀ (contents : List Content),
    (∀ x ∈ Content.listBlocks contents, x.isFork = false) →
      Content.dropIds contents = Content.unlinkedSequence false false contents
  | [], _ => rfl
  | .block b :: rest, h => by
    simp only [Content.listBlocks, List.mem_append, or_imp, forall_and] at h
    have hb : b.isFork = false := h.1 b b.mem_blocks_self
    simp [Content.dropIds, Content.withoutIds, Content.unlinkedSequence, hb,
      Block.withoutIds_eq_unlinked b h.1, Content.dropIds_eq_unlinked rest h.2]
  | .group contents :: rest, h => by
    simp only [Content.listBlocks, List.mem_append, or_imp, forall_and] at h
    simp [Content.dropIds, Content.withoutIds, Content.unlinkedSequence,
      Content.dropIds_eq_unlinked contents h.1, Content.dropIds_eq_unlinked rest h.2]

theorem Block.dropIds_eq_unlinked : ∀ (blocks : List Block),
    (∀ x ∈ Block.listBlocks blocks, x.isFork = false) →
      Block.dropIds blocks = Block.unlinkedSequence false blocks
  | [], _ => rfl
  | b :: rest, h => by
    simp only [Block.listBlocks, List.mem_append, or_imp, forall_and] at h
    have hb : b.isFork = false := h.1 b b.mem_blocks_self
    simp [Block.dropIds, Block.unlinkedSequence, hb, Block.withoutIds_eq_unlinked b h.1,
      Block.dropIds_eq_unlinked rest h.2]

end

/-- Whether canonicalization leaves the inside of a block as it is, ids apart. -/
def Block.isSealed (b : Block) : Bool :=
  Treatment.ofTag b.type == .stripped || Treatment.ofTag b.type == .unknown

/-- A block of a tree that is no linking primitive and does not seal off a fork. -/
structure Block.Open (b : Block) : Prop where
  lowered : b.Lowered
  notPrimitive : isLinkPrimitive b.type = false
  noSealedFork : b.isSealed = true → ∀ x ∈ b.blocks, x.isFork = false

variable {typeOf : String → Option String} {idAt : Nat → String}

/-- The id of a block, if it is a text, leads to its type. -/
def Resolves (typeOf : String → Option String) (b : Block) : Prop :=
  ∀ id, b.id = .str id → typeOf id = some b.type

theorem resolveReferences_of_not_primitive {type : String} (h : isLinkPrimitive type = false)
    (args : Args) : resolveReferences typeOf type args = args := by
  cases args <;> simp [resolveReferences, h]

theorem resolveReferences_constant {type target : String} {id : String}
    (h : isLinkPrimitive type = true) (ht : typeOf id = some target) :
    resolveReferences typeOf type (constant id) = constant ("@" ++ target) := by
  simp [resolveReferences, h, constant, ht]

theorem form_join {id fork : String} (args : List Arg)
    (h : typeOf fork = some Operation.forkExecution.tag) :
    (join id fork args).form typeOf = joinForm (joinType args).tag := by
  unfold join joinType
  split
  · have hp : isLinkPrimitive Operation.triggerWhenFirstCompleted.tag = true := by decide
    have ht : Treatment.ofTag Operation.triggerWhenFirstCompleted.tag = .stripped := by decide
    simp only [Block.form, ht, joinForm]
    rw [← resolveReferences_constant hp h]
    rfl
  · have hp : isLinkPrimitive Operation.triggerWhenAllCompleted.tag = true := by decide
    have ht : Treatment.ofTag Operation.triggerWhenAllCompleted.tag = .ordered := by decide
    simp only [Block.form, ht, joinForm]
    rw [← resolveReferences_constant hp h]
    rfl

theorem form_jump {id joinId join : String} (h : typeOf joinId = some join) :
    (jump id joinId).form typeOf = jumpForm join := by
  have hp : isLinkPrimitive Operation.jumpToBlock.tag = true := by decide
  have ht : Treatment.ofTag Operation.jumpToBlock.tag = .stripped := by decide
  simp only [jump, Block.form, ht, jumpForm]
  rw [← resolveReferences_constant hp h]
  rfl

def Args.isCall : Args → Bool
  | .call _ _ _ => true
  | _ => false

theorem Block.Lowered.isCall_iff {b : Block} (h : b.Lowered) :
    b.args.isCall = true ↔ Treatment.ofTag b.type = .serviceCall := by
  constructor
  · intro hc
    by_contra ht
    have hn := h.not_call_args fun he => ht (he ▸ by decide)
    generalize b.args = args at hc hn
    cases args <;> simp_all [Args.isCall]
  · intro ht
    obtain ⟨_, _, _, he⟩ := h.call_args (treatment_serviceCall ht)
    rw [he]
    rfl

section

variable {args linked : Args} {n k : Nat}

/-- Arguments without forks lose their ids and are as they were. -/
theorem Links.withoutIds (h : Links idAt (.arguments args) n linked k)
    (hl : ∀ x ∈ args.blocks, x.Lowered) (hf : ∀ x ∈ args.blocks, x.isFork = false) :
    linked.withoutIds = args := by
  have hk : (forks linked.blocks).map Block.unlinked = forks args.blocks := h.forks_after hl
  have he : forks args.blocks = [] := by simpa [forks] using hf
  have hu : linked.unlinked = args := h.isUndone hl
  rw [he] at hk
  rw [Args.withoutIds_eq_unlinked linked (by simpa [forks] using hk), hu]

/-- Linking the arguments of a fork does not change the kind of its join. -/
theorem Links.joinType_eq {listed : List Arg}
    (h : Links idAt (.arguments args) n (.list listed) k) :
    joinType listed = joinType args.listed := by
  cases h with
  | list h => simp only [joinType, Args.listed, h.constants.1]

theorem Links.isCall (h : Links idAt (.arguments args) n linked k) :
    linked.isCall = args.isCall := by
  cases h <;> rfl

/-- Only what is treated by position can have contents, forks apart. -/
theorem Links.eq_nil {id : Json} {type : String} {contents contents' : List Content}
    (h : Links idAt (.sequence contents) n contents' k)
    (hb : (Block.mk id type args contents).Lowered) (hf : type ≠ Operation.forkExecution.tag)
    (ht : Treatment.ofTag type ≠ .ordered) : contents = [] ∧ contents' = [] := by
  obtain rfl : contents = [] :=
    hb.contents_eq_nil (fun he : type = _ => ht (he ▸ by decide)) hf
  cases h
  exact ⟨rfl, rfl⟩

end

theorem blockForms_append (xs ys : List Block) :
    Block.forms typeOf (xs ++ ys) = Block.forms typeOf xs ++ Block.forms typeOf ys := by
  induction xs with
  | nil => rfl
  | cons x xs ih => simp [Block.forms, ih]

theorem contentForms_append (xs ys : List Content) :
    Content.forms typeOf (xs ++ ys) = Content.forms typeOf xs ++ Content.forms typeOf ys := by
  induction xs with
  | nil => rfl
  | cons x xs ih => cases x <;> simp [Content.forms, ih]

theorem contentForms_map_block (blocks : List Block) :
    Content.forms typeOf (blocks.map .block) = (Block.forms typeOf blocks).map .block := by
  induction blocks with
  | nil => rfl
  | cons b rest ih => simp [Content.forms, Block.forms, ih]

theorem Content.linkedPaths_cons (join : String) (c : Content) (rest : List Content) :
    Content.linkedPaths join (c :: rest) =
      .group (Content.linkedForms c.asPath ++ [.block (jumpForm join)]) ::
        Content.linkedPaths join rest := by
  cases c <;> simp [Content.linkedPaths, Content.linkedForms, Content.asPath]

/-- The form of a linked block that is no fork, from the forms of its arguments and contents. -/
theorem Links.forms_plain {id : Json} {type : String} {args args' : Args}
    {contents contents' : List Content} {n m m' k : Nat}
    (ha : Links idAt (.arguments args) n args' m)
    (hc : Links idAt (.sequence contents) m' contents' k)
    (hf : type ≠ Operation.forkExecution.tag) (hb : (Block.mk id type args contents).Open)
    (ho : ∀ x ∈ args.blocks, x.Open)
    (hargs : (if args.isCall then args'.callForm typeOf else args'.form typeOf) = args.linkedForm)
    (hcontents : Content.forms typeOf contents' = Content.linkedForms contents) (id' : Json) :
    Block.forms typeOf [.mk id' type args' contents'] =
      (Block.mk id type args contents).linkedForms := by
  have hp : isLinkPrimitive type = false := hb.notPrimitive
  have hnil := hc.eq_nil hb.lowered hf
  have hcall : args.isCall = true ↔ Treatment.ofTag type = .serviceCall := hb.lowered.isCall_iff
  have hsealed : Treatment.ofTag type = .stripped ∨ Treatment.ofTag type = .unknown →
      args'.withoutIds = args := by
    intro ht
    have hno := (Block.forall_blocks.mp
      (hb.noSealedFork (by simpa [Block.isSealed, Block.type] using ht))).2.1
    exact ha.withoutIds (fun x hx => (ho x hx).lowered) hno
  cases ht : Treatment.ofTag type with
  | stripped =>
    obtain ⟨rfl, rfl⟩ := hnil (by simp [ht])
    simp [Block.forms, Block.form, Block.linkedForms, ht, hsealed (.inl ht), Content.dropIds,
      resolveReferences_of_not_primitive hp]
  | unknown =>
    obtain ⟨rfl, rfl⟩ := hnil (by simp [ht])
    simp [Block.forms, Block.form, Block.linkedForms, ht, hsealed (.inr ht), Content.dropIds]
  | ordered =>
    simp only [hcall, ht, reduceCtorEq, if_false] at hargs
    simp [Block.forms, Block.form, Block.linkedForms, ht, hargs,
      resolveReferences_of_not_primitive hp, hcontents]
  | serviceCall =>
    obtain ⟨rfl, rfl⟩ := hnil (by simp [ht])
    simp only [hcall, ht, if_true] at hargs
    simp [Block.forms, Block.form, Block.linkedForms, ht, hargs, Content.dropIds,
      Content.linkedForms]
  | commutative =>
    obtain ⟨rfl, rfl⟩ := hnil (by simp [ht])
    simp only [hcall, ht, reduceCtorEq, if_false] at hargs
    simp [Block.forms, Block.form, Block.linkedForms, ht, hargs, Content.dropIds,
      Content.linkedForms]
  | fork => exact (hf (treatment_fork ht)).elim

/-- The join of the fork to which paths belong has this type. -/
def Fragment.JoinResolves (typeOf : String → Option String) (join : String) : Fragment → Prop
  | .paths joinId _ => typeOf joinId = some join
  | _ => True

/-- The form of what a part is linked to is read off the part, and the type of the join if there
are jumps to it. -/
def Fragment.HasForm (typeOf : String → Option String) (join : String) :
    (p : Fragment) → p.Linked → Prop
  | .block b, linked => Block.forms typeOf linked = b.linkedForms
  | .arguments args, linked =>
    (if args.isCall then linked.callForm typeOf else linked.form typeOf) = args.linkedForm
  | .argList args, linked => Arg.forms typeOf linked = Arg.linkedForms args
  | .paths _ contents, linked => Content.forms typeOf linked = Content.linkedPaths join contents
  | .sequence contents, linked => Content.forms typeOf linked = Content.linkedForms contents
  | .blockList blocks, linked => Block.forms typeOf linked = Block.listLinkedForms blocks

theorem Links.hasForm {p : Fragment} {n k : Nat} {r : p.Linked} (h : Links idAt p n r k)
    (ho : ∀ x ∈ p.before, x.Open) (hr : ∀ x ∈ p.after r, Resolves typeOf x) (join : String)
    (hj : p.JoinResolves typeOf join) : p.HasForm typeOf join r := by
  induction h generalizing join with
  | plain hf ha' hc' iha ihc =>
    obtain ⟨hb, ha, hc⟩ := Block.forall_blocks.mp ho
    simp only [Fragment.after, Block.listBlocks, List.append_nil] at hr
    obtain ⟨_, hra, hrc⟩ := Block.forall_blocks.mp hr
    exact ha'.forms_plain hc' hf hb ha (iha ha hra join trivial) (ihc hc hrc join trivial) _
  | @fork id args listed contents paths n m k ha' hp' iha ihp =>
    obtain ⟨hb, ha, hc⟩ := Block.forall_blocks.mp ho
    simp only [Fragment.after, Block.listBlocks, List.append_nil, List.forall_mem_append] at hr
    obtain ⟨hrf, hra, hrp⟩ := Block.forall_blocks.mp hr.1
    have hft : Treatment.ofTag Operation.forkExecution.tag = .fork := by decide
    have hjoin : typeOf (idAt m) = some (joinType listed).tag :=
      hr.2 _ (Block.mem_blocks_self _) _ rfl
    have hfork : typeOf (idAt n) = some Operation.forkExecution.tag := hrf _ rfl
    have hargs : (Args.list listed).form typeOf = args.linkedForm := by
      have hform := iha ha hra join trivial
      rwa [Fragment.HasForm, if_neg (by rw [← ha'.isCall]; simp [Args.isCall])] at hform
    have hpaths : Content.forms typeOf paths =
        Content.linkedPaths (joinType listed).tag contents := ihp hc hrp _ hjoin
    rw [Fragment.HasForm, Block.forms, Block.forms, form_join listed hfork, Block.forms]
    simp only [Block.form, Block.linkedForms, hft, hargs, hpaths, ha'.joinType_eq]
  | list _ ih => exact congrArg Args.list (ih ho hr join trivial)
  | call _ ih => exact congrArg (Args.call _ _) (ih ho hr join trivial)
  | monitor | argsNil | pathsNil | contentsNil | blocksNil => rfl
  | argsConstant _ ih => exact congrArg _ (ih ho hr join trivial)
  | argsBlock _ _ _ ihv ihr =>
    obtain ⟨hov, hor⟩ := List.forall_mem_append.mp ho
    obtain ⟨hrv, hrr⟩ := List.forall_mem_append.mp hr
    exact congrArg₂ _ (congrArg _ (ihv hov hrv join trivial)) (ihr hor hrr join trivial)
  | @pathsCons joinId c body rest rest' n m k _ _ ihb ihr =>
    rw [Fragment.before_pathsCons, List.forall_mem_append] at ho
    rw [Fragment.after_pathsCons, List.forall_mem_append, List.forall_mem_append] at hr
    have hbody : Content.forms typeOf body = Content.linkedForms c.asPath :=
      ihb ho.1 hr.1.1 join trivial
    have hrest : Content.forms typeOf rest' = Content.linkedPaths join rest :=
      ihr ho.2 hr.2 join hj
    rw [Fragment.HasForm, Content.linkedPaths_cons, ← hbody, ← hrest, Content.forms,
      contentForms_append, Content.forms, Content.forms, form_jump hj]
  | contentsGroup _ _ ihb ihr =>
    obtain ⟨hob, hor⟩ := List.forall_mem_append.mp ho
    obtain ⟨hrb, hrr⟩ := List.forall_mem_append.mp hr
    exact congrArg₂ _ (congrArg _ (ihb hob hrb join trivial)) (ihr hor hrr join trivial)
  | @contentsBlock b linked rest rest' n m k _ _ ihb ihr =>
    obtain ⟨hob, hor⟩ := List.forall_mem_append.mp ho
    rw [Fragment.after_contentsBlock, List.forall_mem_append] at hr
    have hblock : Block.forms typeOf linked = b.linkedForms := ihb hob hr.1 join trivial
    have hrest : Content.forms typeOf rest' = Content.linkedForms rest := ihr hor hr.2 join trivial
    simp only [Fragment.HasForm, Content.linkedForms, contentForms_append, contentForms_map_block,
      hblock, hrest]
  | @blocksCons b linked rest rest' n m k _ _ ihb ihr =>
    obtain ⟨hob, hor⟩ := List.forall_mem_append.mp ho
    rw [Fragment.after_blocksCons, List.forall_mem_append] at hr
    have hblock : Block.forms typeOf linked = b.linkedForms := ihb hob hr.1 join trivial
    have hrest : Block.forms typeOf rest' = Block.listLinkedForms rest := ihr hor hr.2 join trivial
    simp only [Fragment.HasForm, Block.listLinkedForms, blockForms_append, hblock, hrest]

/-- The canonical form of a linked graph depends on its tree alone, where every block is open. -/
theorem canonical_linkGraph {tree g : Graph} {n k : Nat} (ho : ∀ x ∈ tree.blocks, x.Open)
    (h : (linkGraph idAt tree).Yields n g k) :
    (g.canonical false).outcome = .ok (Block.listLinkedForms tree) := by
  obtain ⟨hy, hv⟩ := linkGraph_yields.mp h
  have hform : Block.forms g.typeAt g = Block.listLinkedForms tree :=
    hy.hasForm ho (fun x hx id => typeAt_of_verify hv hx) "" trivial
  rw [canonical_of_verify hv, hform]

end BlockFlow
