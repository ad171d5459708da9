import Mathlib
import BlockFlow.Proofs.Canonical.Identifiers
import BlockFlow.Proofs.Graph.Reading

/-! What canonicalization leaves of a block, wherever the block stands: its type, the kind of its
arguments, the types of the blocks in its contents and, if it is no fork, the number of its
arguments and bodies. -/

namespace BlockFlow

open Canonicalizing

/-- Arguments without those that are listed. -/
def Args.frame : Args → Args
  | .list _ => .list []
  | .monitor descriptor => .monitor descriptor
  | .call serviceId serviceAction _ => .call serviceId serviceAction []

/-- What a canonical form and the block it comes from share. -/
structure Block.FormOf (form b : Block) : Prop where
  noId : form.id = .null
  type_eq : form.type = b.type
  frame : form.args.frame = b.args.frame
  arity : b.isFork = false → form.args.listed.length = b.args.listed.length
  bodies : b.isFork = false → Content.bodyCount? form.contents = Content.bodyCount? b.contents
  members : ((Content.members form.contents).map Block.type).Perm
    ((Content.members b.contents).map Block.type)

variable {typeOf : String → Option String}

section

variable (type : String) (args : Args)

@[simp] theorem Args.frame_withoutIds : args.withoutIds.frame = args.frame := by
  cases args <;> rfl

@[simp] theorem Args.frame_form : (args.form typeOf).frame = args.frame := by
  cases args <;> rfl

@[simp] theorem Args.frame_callForm : (args.callForm typeOf).frame = args.frame := by
  cases args <;> rfl

@[simp] theorem frame_resolveReferences :
    (resolveReferences typeOf type args).frame = args.frame := by
  cases args with
  | list args =>
    rw [resolveReferences]
    split <;> rfl
  | _ => rfl

@[simp] theorem frame_sortArgs : (sortArgs args).frame = args.frame := by
  cases args <;> rfl

@[simp] theorem frame_dropDefaultExit : (dropDefaultExit args).frame = args.frame := by
  cases args <;> rfl

@[simp] theorem Arg.length_dropIds (listed : List Arg) :
    (Arg.dropIds listed).length = listed.length := by
  induction listed with
  | nil => rfl
  | cons arg rest ih => simp [Arg.dropIds, ih]

@[simp] theorem Arg.length_forms (listed : List Arg) :
    (Arg.forms typeOf listed).length = listed.length := by
  induction listed with
  | nil => rfl
  | cons arg rest ih => cases arg <;> simp [Arg.forms, ih]

@[simp] theorem Args.length_withoutIds : args.withoutIds.listed.length = args.listed.length := by
  cases args <;> simp [Args.withoutIds, Args.listed]

@[simp] theorem Args.length_form : (args.form typeOf).listed.length = args.listed.length := by
  cases args <;> simp [Args.form, Args.listed]

@[simp] theorem Args.length_callForm :
    (args.callForm typeOf).listed.length = args.listed.length := by
  cases args <;> simp [Args.callForm, Args.listed]

@[simp] theorem length_resolveReferences :
    (resolveReferences typeOf type args).listed.length = args.listed.length := by
  cases args with
  | list args =>
    rw [resolveReferences]
    split <;> simp [Args.listed]
  | _ => rfl

@[simp] theorem length_sortArgs : (sortArgs args).listed.length = args.listed.length := by
  cases args with
  | list args => exact (sortByText_perm Arg.toJson args).length_eq
  | _ => rfl

@[simp] theorem Content.bodyCount?_dropIds (contents : List Content) :
    Content.bodyCount? (Content.dropIds contents) = Content.bodyCount? contents := by
  induction contents with
  | nil => rfl
  | cons c rest ih =>
    cases c <;> simp [Content.dropIds, Content.withoutIds, Content.bodyCount?, ih]

@[simp] theorem Content.bodyCount?_forms (contents : List Content) :
    Content.bodyCount? (Content.forms typeOf contents) = Content.bodyCount? contents := by
  induction contents with
  | nil => rfl
  | cons c rest ih => cases c <;> simp [Content.forms, Content.bodyCount?, ih]

theorem Content.members_perm {cs ds : List Content} (h : cs.Perm ds) :
    (Content.members cs).Perm (Content.members ds) := by
  rw [Content.members_eq cs, Content.members_eq ds]
  exact h.flatMap_right _

end

/-- The blocks of a sequence keep their types and their places. -/
theorem Content.memberTypes_dropIds : ∀ contents : List Content,
    (Content.members (Content.dropIds contents)).map Block.type =
      (Content.members contents).map Block.type
  | [] => rfl
  | .block (.mk _ _ _ _) :: rest => by
    simp [Content.dropIds, Content.withoutIds, Content.members, Block.withoutIds, Block.type,
      Content.memberTypes_dropIds rest]
  | .group contents :: rest => by
    simp [Content.dropIds, Content.withoutIds, Content.members,
      Content.memberTypes_dropIds contents, Content.memberTypes_dropIds rest]

theorem Block.type_form (b : Block) : (b.form typeOf).type = b.type := by
  rcases b with ⟨id, type, args, contents⟩
  rw [Block.form]
  cases Treatment.ofTag type <;> rfl

theorem Content.memberTypes_forms (contents : List Content) :
    (Content.members (Content.forms typeOf contents)).map Block.type =
      (Content.members contents).map Block.type := by
  fun_induction Content.members contents with
  | case1 => simp [Content.forms, Content.members]
  | case2 b rest ih => simp [Content.forms, Content.members, Block.type_form b, ih]
  | case3 contents rest ihbody ih => simp [Content.forms, Content.members, ihbody, ih]

theorem Block.withoutIds_formOf (b : Block) : b.withoutIds.FormOf b := by
  rcases b with ⟨id, type, args, contents⟩
  exact ⟨rfl, rfl, args.frame_withoutIds, fun _ => args.length_withoutIds,
    fun _ => Content.bodyCount?_dropIds contents, .of_eq (Content.memberTypes_dropIds contents)⟩

theorem Block.form_formOf (typeOf : String → Option String) (b : Block) :
    (b.form typeOf).FormOf b := by
  rcases b with ⟨id, type, args, contents⟩
  have hstripped := Content.memberTypes_dropIds contents
  have hforms : (Content.members (Content.forms typeOf contents)).map Block.type = _ :=
    Content.memberTypes_forms contents
  cases ht : Treatment.ofTag type with
  | fork =>
    -- only a fork may lose an argument and have its contents reordered
    have hfork : (Block.mk id type args contents).isFork = true := by
      simpa [Block.isFork, Block.type] using treatment_fork ht
    have hsorted := Content.members_perm
      (sortByText_perm Content.toJson (Content.forms typeOf contents))
    simp only [Block.form, ht]
    refine ⟨rfl, rfl, by simp [Block.args], by simp [hfork], by simp [hfork], ?_⟩
    exact (hsorted.map Block.type).trans (.of_eq hforms)
  | _ =>
    simp only [Block.form, ht]
    exact ⟨rfl, rfl, by simp [Block.args], by simp [Block.args], by simp [Block.contents],
      by simp [Block.contents, hstripped, hforms]⟩

/-- Forms have the one property exactly if the blocks they come from have the other. -/
def PassesOn (P Q : Block → Prop) : Prop :=
  ∀ b form : Block, form.FormOf b → (Q form ↔ P b)

variable {P Q : Block → Prop}

theorem forall_withoutIds (hpq : PassesOn P Q) (blocks : List Block) :
    (∀ y ∈ blocks.map Block.withoutIds, Q y) ↔ ∀ x ∈ blocks, P x := by
  rw [List.forall_mem_map]
  exact forall₂_congr fun x _ => hpq x _ x.withoutIds_formOf

mutual

theorem Block.forall_form (hpq : PassesOn P Q) : ∀ b : Block,
    (∀ y ∈ (b.form typeOf).blocks, Q y) ↔ ∀ x ∈ b.blocks, P x
  | .mk id type args contents => by
    have hself := hpq _ _ (Block.form_formOf typeOf (.mk id type args contents))
    have hargs := Args.forall_form hpq args
    have hcall := Args.forall_callForm hpq args
    have hcontents := Content.forall_forms hpq contents
    have hargs' := forall_withoutIds hpq args.blocks
    have hcontents' := forall_withoutIds hpq (Content.listBlocks contents)
    have hsorted : (∀ y ∈ Content.listBlocks (sortByText Content.toJson
        (Content.forms typeOf contents)), Q y) ↔ ∀ x ∈ Content.listBlocks contents, P x := by
      rw [← hcontents]
      simp only [(Content.listBlocks_perm (sortByText_perm Content.toJson _)).mem_iff]
    rw [Block.forall_blocks_iff, Block.forall_blocks, hself]
    refine and_congr_right fun _ => ?_
    rw [Block.form]
    cases Treatment.ofTag type <;>
      simp only [Block.args, Block.contents, blocks_resolveReferences, blocks_dropDefaultExit,
        mem_blocks_sortArgs, Args.blocks_withoutIds, Content.listBlocks_dropIds, hargs, hcall,
        hcontents, hargs', hcontents', hsorted]

theorem Args.forall_form (hpq : PassesOn P Q) : ∀ args : Args,
    (∀ y ∈ (args.form typeOf).blocks, Q y) ↔ ∀ x ∈ args.blocks, P x
  | .list args => Arg.forall_forms hpq args
  | .monitor _ => by simp [Args.form, Args.blocks]
  | .call _ _ values => by
    rw [Args.form, Args.blocks, Args.blocks, Arg.listBlocks_dropIds, forall_withoutIds hpq]

theorem Args.forall_callForm (hpq : PassesOn P Q) : ∀ args : Args,
    (∀ y ∈ (args.callForm typeOf).blocks, Q y) ↔ ∀ x ∈ args.blocks, P x
  | .list args => by
    rw [Args.callForm, Args.blocks, Args.blocks, Arg.listBlocks_dropIds, forall_withoutIds hpq]
  | .monitor _ => by simp [Args.callForm, Args.blocks]
  | .call _ _ values => Arg.forall_forms hpq values

theorem Arg.forall_forms (hpq : PassesOn P Q) : ∀ args : List Arg,
    (∀ y ∈ Arg.listBlocks (Arg.forms typeOf args), Q y) ↔ ∀ x ∈ Arg.listBlocks args, P x
  | [] => by simp [Arg.forms, Arg.listBlocks]
  | .constant _ :: rest => Arg.forall_forms hpq rest
  | .block value :: rest => by
    rw [Arg.forms, Arg.listBlocks, Arg.listBlocks, List.forall_mem_append, List.forall_mem_append,
      Block.forall_forms hpq value, Arg.forall_forms hpq rest]

theorem Content.forall_forms (hpq : PassesOn P Q) : ∀ contents : List Content,
    (∀ y ∈ Content.listBlocks (Content.forms typeOf contents), Q y) ↔
      ∀ x ∈ Content.listBlocks contents, P x
  | [] => by simp [Content.forms, Content.listBlocks]
  | .block b :: rest => by
    rw [Content.forms, Content.listBlocks, Content.listBlocks, List.forall_mem_append,
      List.forall_mem_append, Block.forall_form hpq b, Content.forall_forms hpq rest]
  | .group contents :: rest => by
    rw [Content.forms, Content.listBlocks, Content.listBlocks, List.forall_mem_append,
      List.forall_mem_append, Content.forall_forms hpq contents, Content.forall_forms hpq rest]

theorem Block.forall_forms (hpq : PassesOn P Q) : ∀ blocks : List Block,
    (∀ y ∈ Block.listBlocks (Block.forms typeOf blocks), Q y) ↔
      ∀ x ∈ Block.listBlocks blocks, P x
  | [] => by simp [Block.forms, Block.listBlocks]
  | b :: rest => by
    rw [Block.forms, Block.listBlocks, Block.listBlocks, List.forall_mem_append,
      List.forall_mem_append, Block.forall_form hpq b, Block.forall_forms hpq rest]

end

/-- What blocks pass on to their forms, all forms in the canonical form of a graph have exactly if
all blocks of the graph do. -/
theorem forall_canonical_iff (hpq : PassesOn P Q) {g form : Graph}
    (h : (g.canonical false).outcome = .ok form) :
    (∀ y ∈ form.blocks, Q y) ↔ ∀ x ∈ g.blocks, P x := by
  have hform : form = Block.forms g.typeAt g := by
    rw [Graph.canonical_outcome (Graph.keyed_of_canonical h)] at h
    exact (Except.ok.inj h).symm
  rw [hform]
  exact Block.forall_forms hpq g

/-- A graph has a canonical form if its ids are texts, where there are any. -/
theorem exists_canonical {g : Graph}
    (h : ∀ b ∈ g.blocks, b.id = .null ∨ ∃ text, b.id = .str text) :
    ∃ form, (g.canonical false).outcome = .ok form := by
  refine ⟨_, Graph.canonical_outcome ?_⟩
  intro b hb _
  rcases h b hb with hid | ⟨text, hid⟩ <;> simp [hid, Json.key?]

end BlockFlow
