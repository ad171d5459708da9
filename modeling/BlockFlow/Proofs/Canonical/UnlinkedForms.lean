import Mathlib
import BlockFlow.Proofs.Canonical.LinkedForms
import BlockFlow.Proofs.Graph.Changes
import BlockFlow.Proofs.Json.StableTexts

/-! A canonical form, once what linking adds is taken back, differs from the tree only in ways that
carry no meaning. -/

namespace BlockFlow

open Canonicalizing Linking

mutual

/-- Taking back what linking adds removes the ids anyway. -/
theorem Block.unlinked_withoutIds : ∀ (b : Block), b.withoutIds.unlinked = b.unlinked
  | .mk id type args contents => by
    simp only [Block.withoutIds, Block.unlinked, Args.unlinked_withoutIds args,
      Content.unlinkedPaths_dropIds contents, Content.unlinkedSequence_dropIds contents]

theorem Args.unlinked_withoutIds : ∀ (args : Args), args.withoutIds.unlinked = args.unlinked
  | .list args => by simp only [Args.withoutIds, Args.unlinked, Arg.unlinkedList_dropIds args]
  | .monitor descriptor => rfl
  | .call serviceId serviceAction values => by
    simp only [Args.withoutIds, Args.unlinked, Arg.unlinkedList_dropIds values]

theorem Arg.unlinkedList_dropIds : ∀ (args : List Arg),
    Arg.unlinkedList (Arg.dropIds args) = Arg.unlinkedList args
  | [] => rfl
  | .constant value :: rest => by
    simp only [Arg.dropIds, Arg.withoutIds, Arg.unlinkedList, Arg.unlinkedList_dropIds rest]
  | .block value :: rest => by
    simp only [Arg.dropIds, Arg.withoutIds, Arg.unlinkedList, Arg.unlinkedList_dropIds rest,
      Block.unlinkedSequence_dropIds value]

theorem Content.unlinkedPaths_dropIds : ∀ (contents : List Content),
    Content.unlinkedPaths (Content.dropIds contents) = Content.unlinkedPaths contents
  | [] => rfl
  | .block b :: rest => by
    simp only [Content.dropIds, Content.withoutIds, Content.unlinkedPaths,
      Block.unlinked_withoutIds b, Content.unlinkedPaths_dropIds rest]
  | .group contents :: rest => by
    simp only [Content.dropIds, Content.withoutIds, Content.unlinkedPaths,
      Content.unlinkedSequence_dropIds contents, Content.unlinkedPaths_dropIds rest]

theorem Content.unlinkedSequence_dropIds : ∀ (contents : List Content) (isPath behindFork : Bool),
    Content.unlinkedSequence isPath behindFork (Content.dropIds contents) =
      Content.unlinkedSequence isPath behindFork contents
  | [], _, _ => rfl
  | .block b :: rest, isPath, behindFork => by
    have hf : b.withoutIds.isFork = b.isFork := by cases b; rfl
    have he : (Content.dropIds rest).isEmpty = rest.isEmpty := by cases rest <;> rfl
    simp only [Content.dropIds, Content.withoutIds, Content.unlinkedSequence, hf, he,
      Block.unlinked_withoutIds b, Content.unlinkedSequence_dropIds rest]
  | .group contents :: rest, isPath, behindFork => by
    simp only [Content.dropIds, Content.withoutIds, Content.unlinkedSequence,
      Content.unlinkedSequence_dropIds contents, Content.unlinkedSequence_dropIds rest]

theorem Block.unlinkedSequence_dropIds : ∀ (blocks : List Block) (behindFork : Bool),
    Block.unlinkedSequence behindFork (Block.dropIds blocks) =
      Block.unlinkedSequence behindFork blocks
  | [], _ => rfl
  | b :: rest, behindFork => by
    have hf : b.withoutIds.isFork = b.isFork := by cases b; rfl
    simp only [Block.dropIds, Block.unlinkedSequence, hf, Block.unlinked_withoutIds b,
      Block.unlinkedSequence_dropIds rest]

end

/-- What becomes of one argument. -/
def Arg.unlinked : Arg → Arg
  | .constant value => .constant value
  | .block value => .block (Block.unlinkedSequence false value)

theorem Arg.unlinkedList_eq (args : List Arg) : Arg.unlinkedList args = args.map Arg.unlinked := by
  induction args with
  | nil => rfl
  | cons a rest ih => cases a <;> simp [Arg.unlinkedList, Arg.unlinked, ih]

/-- What becomes of one path of a fork. -/
def Content.unlinkedPath : Content → Content
  | .group contents => .group (Content.unlinkedSequence true false contents)
  | .block b => .block b.unlinked

theorem Content.unlinkedPaths_eq (contents : List Content) :
    Content.unlinkedPaths contents = contents.map Content.unlinkedPath := by
  induction contents with
  | nil => rfl
  | cons c rest ih => cases c <;> simp [Content.unlinkedPaths, Content.unlinkedPath, ih]

theorem treatment_commutative {type : String} (h : Treatment.ofTag type = .commutative) :
    type = Operation.operatorAnd.tag ∨ type = Operation.operatorEquals.tag := by
  obtain ⟨o, rfl⟩ := exists_operation type (by simp [h]) (by simp [h])
  cases o <;> revert h <;> decide

section

variable {same : Json → Json → Prop} {typeOf : String → Option String}

/-- Sorting operands permutes them. -/
theorem similar_sortArgs {type : String} (ht : Treatment.ofTag type = .commutative) (id : Json)
    (args : Args) (contents : List Content) :
    Content.Similar same (.block (.mk id type (sortArgs args).unlinked contents))
      (.block (.mk id type args.unlinked contents)) := by
  cases args with
  | list args =>
    simp only [sortArgs, Args.unlinked, Arg.unlinkedList_eq]
    have hperm := (sortByText_perm Arg.toJson args).map Arg.unlinked
    exact .of_change (.operands (treatment_commutative ht) hperm)
  | monitor descriptor => exact .refl _
  | call serviceId serviceAction values => exact .refl _

/-- Leaving out the default is a change for each time that it is stated. -/
theorem similar_dropDefaultExit (id : Json) (args : Args) (paths : List Content) :
    Content.Similar same
      (.block (.mk id Operation.forkExecution.tag (dropDefaultExit args).unlinked paths))
      (.block (.mk id Operation.forkExecution.tag args.unlinked paths)) := by
  cases args with
  | list args =>
    -- The arguments before those under consideration are done with.
    have hdrop (before : List Arg) : Content.Similar same
        (.block (.mk id Operation.forkExecution.tag (.list (before ++
          (dropDefaultExit (.list args)).unlinked.listed)) paths))
        (.block (.mk id Operation.forkExecution.tag (.list (before ++
          args.map Arg.unlinked)) paths)) := by
      simp only [dropDefaultExit, Args.unlinked, Arg.unlinkedList_eq, Args.listed]
      induction args generalizing before with
      | nil => exact .refl _
      | cons a rest ih =>
        have hkept := ih (before ++ [a.unlinked])
        simp only [List.append_assoc, List.singleton_append] at hkept
        cases a with
        | block value => simpa using hkept
        | constant value =>
          by_cases hv : value = exitWhenAllCompleted
          · subst hv
            have hleft := Content.Similar.of_change (@Content.Change.defaultExit same id before
              (rest.map Arg.unlinked) paths)
            simpa [Arg.unlinked] using (ih before).trans hleft.symm
          · simpa [hv] using hkept
    simpa [Args.unlinked, Arg.unlinkedList_eq, dropDefaultExit, Args.listed] using hdrop []
  | monitor descriptor => exact .refl _
  | call serviceId serviceAction values => exact .refl _

theorem isFork_form (b : Block) : (b.form typeOf).isFork = b.isFork := by
  obtain ⟨id, type, args, contents⟩ := b
  unfold Block.form
  split <;> rfl

theorem isEmpty_forms (contents : List Content) :
    (Content.forms typeOf contents).isEmpty = contents.isEmpty := by
  rcases contents with _ | ⟨_ | _, rest⟩ <;> rfl

mutual

/-- The canonical form of a block, once what linking adds is taken back, differs from the block in
ways that carry no meaning. -/
theorem Block.unlinked_form : ∀ (b : Block),
    (∀ x ∈ b.unlinked.blocks, isLinkPrimitive x.type = false) →
      Content.Similar same (.block (b.form typeOf).unlinked) (.block b.unlinked)
  | .mk id type args contents, hp => by
    obtain ⟨hn, ha, hc⟩ := Block.forall_blocks.mp hp
    have hr (args : Args) : resolveReferences typeOf type args = args :=
      resolveReferences_of_not_primitive hn args
    have hform := Args.unlinked_form args ha
    have hids := Args.unlinked_withoutIds args
    have hpaths := Content.unlinkedPaths_dropIds contents
    have hseq := Content.unlinkedSequence_dropIds contents
    unfold Block.form
    cases ht : Treatment.ofTag type with
    | stripped =>
      simp only [Block.unlinked, hr, hids, hpaths, hseq]
      exact .refl _
    | unknown =>
      simp only [Block.unlinked, hids, hpaths, hseq]
      exact .refl _
    | ordered =>
      have hf : type ≠ Operation.forkExecution.tag := fun he => by
        rw [he] at ht
        exact absurd ht (by decide)
      rw [if_neg hf] at hc
      simp only [Block.unlinked, if_neg hf, hr]
      exact (hform .null type _).trans
        (.contents (Content.unlinkedSequence_forms contents _ _ hc) _ _ _)
    | serviceCall =>
      simp only [Block.unlinked, hpaths, hseq]
      exact Args.unlinked_callForm args ha _ _ _
    | commutative =>
      simp only [Block.unlinked, hpaths, hseq]
      exact (similar_sortArgs ht _ _ _).trans (hform _ _ _)
    | fork =>
      obtain rfl := treatment_fork ht
      rw [if_pos rfl] at hc
      simp only [Block.unlinked, if_true]
      have hsort : ((sortByText Content.toJson (Content.forms typeOf contents)).map
          Content.unlinkedPath).Perm ((Content.forms typeOf contents).map Content.unlinkedPath) :=
        (sortByText_perm Content.toJson _).map _
      rw [← Content.unlinkedPaths_eq, ← Content.unlinkedPaths_eq] at hsort
      exact (similar_dropDefaultExit _ _ _).trans ((hform _ _ _).trans
        ((Content.Similar.of_change (.paths hsort)).trans
          (.contents (Content.unlinkedPaths_forms contents hc) _ _ _)))

theorem Args.unlinked_form : ∀ (args : Args),
    (∀ x ∈ args.unlinked.blocks, isLinkPrimitive x.type = false) →
      ∀ (id : Json) (type : String) (contents : List Content),
        Content.Similar same (.block (.mk id type (args.form typeOf).unlinked contents))
          (.block (.mk id type args.unlinked contents))
  | .list args, hp, id, type, contents =>
    .arguments (Arg.unlinkedList_forms args hp) id type contents
  | .monitor descriptor, _, id, type, contents => .refl _
  | .call serviceId serviceAction values, _, id, type, contents => by
    simp only [Args.form, Args.unlinked, Arg.unlinkedList_dropIds values]
    exact .refl _

theorem Args.unlinked_callForm : ∀ (args : Args),
    (∀ x ∈ args.unlinked.blocks, isLinkPrimitive x.type = false) →
      ∀ (id : Json) (type : String) (contents : List Content),
        Content.Similar same (.block (.mk id type (args.callForm typeOf).unlinked contents))
          (.block (.mk id type args.unlinked contents))
  | .list args, _, id, type, contents => by
    simp only [Args.callForm, Args.unlinked, Arg.unlinkedList_dropIds args]
    exact .refl _
  | .monitor descriptor, _, id, type, contents => .refl _
  | .call serviceId serviceAction values, hp, id, type, contents =>
    .callValues (Arg.unlinkedList_forms values hp) id serviceId serviceAction type contents

theorem Arg.unlinkedList_forms : ∀ (args : List Arg),
    (∀ x ∈ Arg.listBlocks (Arg.unlinkedList args), isLinkPrimitive x.type = false) →
      List.Forall₂ (Arg.Similar same) (Arg.unlinkedList (Arg.forms typeOf args))
        (Arg.unlinkedList args)
  | [], _ => .nil
  | .constant value :: rest, hp => .cons (.constant value) (Arg.unlinkedList_forms rest hp)
  | .block value :: rest, hp => by
    simp only [Arg.unlinkedList, Arg.listBlocks, List.mem_append, or_imp, forall_and] at hp
    exact .cons (.block (Block.unlinkedSequence_forms value false hp.1))
      (Arg.unlinkedList_forms rest hp.2)

theorem Content.unlinkedPaths_forms : ∀ (contents : List Content),
    (∀ x ∈ Content.listBlocks (Content.unlinkedPaths contents),
      isLinkPrimitive x.type = false) →
      List.Forall₂ (Content.Similar same)
        (Content.unlinkedPaths (Content.forms typeOf contents)) (Content.unlinkedPaths contents)
  | [], _ => .nil
  | .block b :: rest, hp => by
    simp only [Content.unlinkedPaths, Content.listBlocks, List.mem_append, or_imp, forall_and] at hp
    exact .cons (Block.unlinked_form b hp.1) (Content.unlinkedPaths_forms rest hp.2)
  | .group contents :: rest, hp => by
    simp only [Content.unlinkedPaths, Content.listBlocks, List.mem_append, or_imp, forall_and] at hp
    exact .cons (.members (Content.unlinkedSequence_forms contents true false hp.1))
      (Content.unlinkedPaths_forms rest hp.2)

theorem Content.unlinkedSequence_forms : ∀ (contents : List Content) (isPath behindFork : Bool),
    (∀ x ∈ Content.listBlocks (Content.unlinkedSequence isPath behindFork contents),
      isLinkPrimitive x.type = false) →
      List.Forall₂ (Content.Similar same)
        (Content.unlinkedSequence isPath behindFork (Content.forms typeOf contents))
        (Content.unlinkedSequence isPath behindFork contents)
  | [], _, _, _ => .nil
  | .block b :: rest, isPath, behindFork, hp => by
    simp only [Content.unlinkedSequence] at hp
    simp only [Content.forms, Content.unlinkedSequence, isFork_form, isEmpty_forms]
    split
    · next hd =>
      rw [if_pos hd] at hp
      exact Content.unlinkedSequence_forms rest _ _ hp
    · next hd =>
      rw [if_neg hd] at hp
      simp only [Content.listBlocks, List.mem_append, or_imp, forall_and] at hp
      exact .cons (Block.unlinked_form b hp.1) (Content.unlinkedSequence_forms rest _ _ hp.2)
  | .group contents :: rest, isPath, behindFork, hp => by
    simp only [Content.unlinkedSequence, Content.listBlocks, List.mem_append, or_imp,
      forall_and] at hp
    exact .cons (.members (Content.unlinkedSequence_forms contents _ _ hp.1))
      (Content.unlinkedSequence_forms rest _ _ hp.2)

theorem Block.unlinkedSequence_forms : ∀ (blocks : List Block) (behindFork : Bool),
    (∀ x ∈ Block.listBlocks (Block.unlinkedSequence behindFork blocks),
      isLinkPrimitive x.type = false) →
      List.Forall₂ (fun x y => Content.Similar same (.block x) (.block y))
        (Block.unlinkedSequence behindFork (Block.forms typeOf blocks))
        (Block.unlinkedSequence behindFork blocks)
  | [], _, _ => .nil
  | b :: rest, behindFork, hp => by
    simp only [Block.unlinkedSequence] at hp
    simp only [Block.forms, Block.unlinkedSequence, isFork_form]
    split
    · next hd =>
      rw [if_pos hd] at hp
      exact Block.unlinkedSequence_forms rest _ hp
    · next hd =>
      rw [if_neg hd] at hp
      simp only [Block.listBlocks, List.mem_append, or_imp, forall_and] at hp
      exact .cons (Block.unlinked_form b hp.1) (Block.unlinkedSequence_forms rest _ hp.2)

end

end

end BlockFlow
