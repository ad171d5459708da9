import Mathlib
import BlockFlow.Proofs.Graph.Changes

/-! What changes leave in place: the order of statements and branches, of the arguments of most
operations and of the values of service calls, and when a fork is over. -/

namespace BlockFlow

section

variable {α : Type} {R : α → α → Prop}

theorem forall₂_symm (hs : ∀ {a b}, R a b → R b a) {xs ys : List α} (h : List.Forall₂ R xs ys) :
    List.Forall₂ R ys xs := List.Forall₂.flip (h.imp fun _ _ => hs)

theorem forall₂_trans (ht : ∀ {a b c}, R a b → R b c → R a c) {xs ys zs : List α}
    (h : List.Forall₂ R xs ys) (h' : List.Forall₂ R ys zs) : List.Forall₂ R xs zs := by
  induction h generalizing zs with
  | nil => exact h'
  | cons hab _ ih =>
    cases h' with
    | cons hbc h' => exact .cons (ht hab hbc) (ih h')

theorem forall₂_replace (hr : ∀ a, R a a) {a b : α} (h : R a b) (before after : List α) :
    List.Forall₂ R (before ++ a :: after) (before ++ b :: after) := by
  have hsame (xs : List α) : List.Forall₂ R xs xs := List.forall₂_same.mpr fun x _ => hr x
  exact List.rel_append (hsame before) (.cons h (hsame after))

end

variable {same : Json → Json → Prop}

namespace Arg.Similar

theorem refl (a : Arg) : Arg.Similar same a a := by
  cases a with
  | constant value => exact .constant value
  | block value => exact .block (List.forall₂_same.mpr fun _ _ => .refl _)

theorem symm {a b : Arg} (h : Arg.Similar same a b) : Arg.Similar same b a := by
  cases h with
  | constant value => exact .constant value
  | block h => exact .block (forall₂_symm .symm h)

theorem trans {a b c : Arg} (h : Arg.Similar same a b) (h' : Arg.Similar same b c) :
    Arg.Similar same a c := by
  cases h with
  | constant value => exact h'
  | block h =>
    cases h' with
    | block h' => exact .block (forall₂_trans .trans h h')

end Arg.Similar

theorem Arg.similar_self (args : List Arg) : List.Forall₂ (Arg.Similar same) args args :=
  List.forall₂_same.mpr fun a _ => .refl a

theorem Arg.similar_of_change {first last : List Block} {b b' : Block}
    (h : Content.Change same (.block b) (.block b')) :
    Arg.Similar same (.block (first ++ b :: last)) (.block (first ++ b' :: last)) :=
  .block (forall₂_replace (fun _ => .refl _) (.of_change h) first last)

theorem Content.similar_self (contents : List Content) :
    List.Forall₂ (Content.Similar same) contents contents :=
  List.forall₂_same.mpr fun c _ => .refl c

/-- Whether the order of its arguments carries no meaning for a type, or some may be left out. -/
def hasFreeArguments (type : String) : Prop :=
  type = Operation.operatorAnd.tag ∨ type = Operation.operatorEquals.tag ∨
    type = Operation.forkExecution.tag

/-- Two blocks of one type with the same things in the same order, as far as it matters. -/
structure Block.SameOrder (same : Json → Json → Prop) (b b' : Block) : Prop where
  type : b.type = b'.type
  arguments : ¬ hasFreeArguments b.type →
    List.Forall₂ (Arg.Similar same) b.args.listed b'.args.listed
  contents : b.isFork = false → List.Forall₂ (Content.Similar same) b.contents b'.contents
  firstCompleted : Linking.joinType b.args.listed = Linking.joinType b'.args.listed

/-- Two sequences with the same statements in the same order, or two such blocks. -/
inductive Content.SameOrder (same : Json → Json → Prop) : Content → Content → Prop
  | block {b b' : Block} (h : b.SameOrder same b') : Content.SameOrder same (.block b) (.block b')
  | group {cs ds : List Content} (h : List.Forall₂ (Content.Similar same) cs ds) :
      Content.SameOrder same (.group cs) (.group ds)

namespace Block.SameOrder

theorem refl (b : Block) : b.SameOrder same b :=
  ⟨rfl, fun _ => Arg.similar_self _, fun _ => Content.similar_self _, rfl⟩

theorem symm {b b' : Block} (h : b.SameOrder same b') : b'.SameOrder same b := by
  refine ⟨h.type.symm, fun ha => ?_, fun hf => ?_, h.firstCompleted.symm⟩
  · exact forall₂_symm .symm (h.arguments (h.type ▸ ha))
  · refine forall₂_symm .symm (h.contents ?_)
    rwa [Block.isFork, h.type]

theorem trans {a b c : Block} (h : a.SameOrder same b) (h' : b.SameOrder same c) :
    a.SameOrder same c := by
  refine ⟨h.type.trans h'.type, fun ha => ?_, fun hf => ?_,
    h.firstCompleted.trans h'.firstCompleted⟩
  · exact forall₂_trans .trans (h.arguments ha) (h'.arguments (h.type ▸ ha))
  · refine forall₂_trans .trans (h.contents hf) (h'.contents ?_)
    rwa [Block.isFork, ← h.type]

end Block.SameOrder

theorem joinType_congr {as bs : List Arg}
    (h : exitWhenFirstCompleted ∈ Arg.constants as ↔ exitWhenFirstCompleted ∈ Arg.constants bs) :
    Linking.joinType as = Linking.joinType bs := by
  simp only [Linking.joinType, h]

/-- One change keeps the order of things. -/
theorem Content.Change.sameOrder {c c' : Content} (h : Content.Change same c c') :
    c.SameOrder same c' := by
  cases h with
  | operands ht h =>
    refine .block ⟨rfl, fun ha => (ha ?_).elim, fun _ => Content.similar_self _, joinType_congr ?_⟩
    · exact ht.elim .inl fun he => .inr (.inl he)
    · exact (h.filterMap _).mem_iff
  | paths h =>
    refine .block ⟨rfl, fun ha => (ha (.inr (.inr rfl))).elim, fun hf => ?_, rfl⟩
    simp [Block.isFork, Block.type] at hf
  | defaultExit =>
    have hne : exitWhenFirstCompleted ≠ exitWhenAllCompleted := by decide
    refine .block ⟨rfl, fun ha => (ha (.inr (.inr rfl))).elim, fun _ => Content.similar_self _,
      joinType_congr ?_⟩
    simp [Block.args, Args.listed, Arg.constants, hne]
  | descriptor h => exact .block ⟨rfl, fun _ => .nil, fun _ => Content.similar_self _, rfl⟩
  | service hi ha =>
    exact .block ⟨rfl, fun _ => Arg.similar_self _, fun _ => Content.similar_self _, rfl⟩
  | argument h =>
    refine .block ⟨rfl, fun _ => ?_, fun _ => Content.similar_self _, joinType_congr ?_⟩
    · exact forall₂_replace .refl (Arg.similar_of_change h) _ _
    · simp only [Block.args, Args.listed, constants_append_block]
  | callValue h =>
    refine .block ⟨rfl, fun _ => ?_, fun _ => Content.similar_self _, joinType_congr ?_⟩
    · exact forall₂_replace .refl (Arg.similar_of_change h) _ _
    · simp only [Block.args, Args.listed, constants_append_block]
  | content h =>
    exact .block ⟨rfl, fun _ => Arg.similar_self _,
      fun _ => forall₂_replace .refl (.of_change h) _ _, rfl⟩
  | group h => exact .group (forall₂_replace .refl (.of_change h) _ _)

/-- Any number of changes keep the order of things. -/
theorem Content.Similar.sameOrder {c c' : Content} (h : Content.Similar same c c') :
    c.SameOrder same c' := by
  induction h with
  | rel c c' h => exact h.sameOrder
  | refl c =>
    cases c with
    | block b => exact .block (.refl b)
    | group cs => exact .group (Content.similar_self cs)
  | symm c c' _ ih =>
    cases ih with
    | block h => exact .block h.symm
    | group h => exact .group (forall₂_symm .symm h)
  | trans c d e _ _ ih ih' =>
    cases ih with
    | block h =>
      cases ih' with
      | block h' => exact .block (h.trans h')
    | group h =>
      cases ih' with
      | group h' => exact .group (forall₂_trans .trans h h')

/-- Similar graphs have similar statements in the same order. -/
theorem Graph.statements_of_similar {t t' : Graph}
    (h : Content.Similar same (Graph.body t) (Graph.body t')) :
    List.Forall₂ (Block.SameOrder same) t t' := by
  cases h.sameOrder with
  | group h =>
    rw [List.forall₂_map_left_iff, List.forall₂_map_right_iff] at h
    refine h.imp fun b b' hb => ?_
    cases hb.sameOrder with
    | block hb => exact hb

end BlockFlow
