import Mathlib
import BlockFlow.Proofs.Graph.Changes
import BlockFlow.Proofs.Lowering.Trees

/-! Changes of a program that carry no meaning, and what becomes of them in its tree. -/

namespace BlockFlow

open Json

/-- One change of an operation, at any depth: the operands of a commutative operator or the paths
of a fork in another order, or a fork argument that states the default left out. -/
inductive Json.OperationChange : Json → Json → Prop
  | operands {tag : String} {operands operands' : List Json}
      (ht : tag = Operation.operatorAnd.tag ∨ tag = Operation.operatorEquals.tag)
      (h : operands.Perm operands') :
      OperationChange (.arr (.str tag :: operands)) (.arr (.str tag :: operands'))
  | paths {args : Json} {paths paths' rest : List Json} (h : paths.Perm paths') :
      OperationChange (.arr (.str Operation.forkExecution.tag :: args :: .arr paths :: rest))
        (.arr (.str Operation.forkExecution.tag :: args :: .arr paths' :: rest))
  | defaultExit {before after rest : List Json} :
      OperationChange
        (.arr (.str Operation.forkExecution.tag ::
          .arr (before ++ .str exitWhenAllCompleted :: after) :: rest))
        (.arr (.str Operation.forkExecution.tag :: .arr (before ++ after) :: rest))
  | argument {tag : String} {before after : List Json} {v w : Json} (ht : IsPlainTag tag)
      (h : OperationChange v w) :
      OperationChange (.arr (.str tag :: (before ++ v :: after)))
        (.arr (.str tag :: (before ++ w :: after)))
  | callValue {before after : List (String × Json)} {first last rest : List Json} {v w : Json}
      (h : OperationChange v w) :
      OperationChange
        (.arr (.str Operation.callService.tag ::
          .obj (before ++ ("service_call_values", .arr (first ++ v :: last)) :: after) :: rest))
        (.arr (.str Operation.callService.tag ::
          .obj (before ++ ("service_call_values", .arr (first ++ w :: last)) :: after) :: rest))
  | condition {branches : List Json} {v w : Json} (h : OperationChange v w) :
      OperationChange (.arr (.str Operation.ifElse.tag :: v :: branches))
        (.arr (.str Operation.ifElse.tag :: w :: branches))
  | branch {condition : Json} {before after first last : List Json} {v w : Json}
      (h : OperationChange v w) :
      OperationChange
        (.arr (.str Operation.ifElse.tag :: condition ::
          (before ++ .arr (first ++ v :: last) :: after)))
        (.arr (.str Operation.ifElse.tag :: condition ::
          (before ++ .arr (first ++ w :: last) :: after)))
  | forkArgument {before after rest : List Json} {v w : Json} (h : OperationChange v w) :
      OperationChange
        (.arr (.str Operation.forkExecution.tag :: .arr (before ++ v :: after) :: rest))
        (.arr (.str Operation.forkExecution.tag :: .arr (before ++ w :: after) :: rest))
  | path {args : Json} {before after first last rest : List Json} {v w : Json}
      (h : OperationChange v w) :
      OperationChange
        (.arr (.str Operation.forkExecution.tag :: args ::
          .arr (before ++ .arr (first ++ v :: last) :: after) :: rest))
        (.arr (.str Operation.forkExecution.tag :: args ::
          .arr (before ++ .arr (first ++ w :: last) :: after) :: rest))

/-- One operation of a program changed. -/
def Json.ProgramChange (p q : Json) : Prop :=
  ∃ before after v w, Json.OperationChange v w ∧ p = .arr (before ++ v :: after) ∧
    q = .arr (before ++ w :: after)

/-- Programs that any number of changes, made or undone, turn into one another. -/
def Json.Equivalent : Json → Json → Prop := Relation.EqvGen Json.ProgramChange

section

variable {α β : Type} {f : α → Option β}

theorem mapM_eq_filterMap {xs : List α} {ys : List β} (h : xs.mapM f = some ys) :
    xs.filterMap f = ys := by
  rw [mapM_eq_some] at h
  induction h with
  | nil => rfl
  | cons hx _ ih => rw [List.filterMap_cons_some hx, ih]

theorem exists_mapM_iff {xs : List α} :
    (∃ ys, xs.mapM f = some ys) ↔ ∀ x ∈ xs, ∃ y, f x = some y := by
  induction xs with
  | nil => simp
  | cons x xs ih =>
    rw [List.forall_mem_cons, ← ih, List.mapM_cons]
    cases f x <;> cases xs.mapM f <;> simp

/-- Results for a reordered list are the reordered results. -/
theorem mapM_perm {xs ys : List α} (h : xs.Perm ys) :
    Option.Rel List.Perm (xs.mapM f) (ys.mapM f) := by
  have hs : (∃ zs, xs.mapM f = some zs) ↔ ∃ zs, ys.mapM f = some zs := by
    simp only [exists_mapM_iff, h.mem_iff]
  cases hx : xs.mapM f with
  | none =>
    cases hy : ys.mapM f with
    | none => exact .none
    | some zs => simp [hx, hy] at hs
  | some us =>
    cases hy : ys.mapM f with
    | none => simp [hx, hy] at hs
    | some zs =>
      rw [← mapM_eq_filterMap hx, ← mapM_eq_filterMap hy]
      exact .some (h.filterMap f)

/-- What becomes of one changed member of a list. -/
theorem mapM_member {r : β → β → Prop} {v w : α} (h : Option.Rel r (f v) (f w))
    (before after : List α) :
    Option.Rel (fun xs ys => ∃ first last x y, r x y ∧ xs = first ++ x :: last ∧
      ys = first ++ y :: last) ((before ++ v :: after).mapM f) ((before ++ w :: after).mapM f) := by
  rw [List.mapM_append, List.mapM_append, List.mapM_cons, List.mapM_cons]
  cases before.mapM f with
  | none => exact .none
  | some first =>
    generalize f v = x at h ⊢
    generalize f w = y at h ⊢
    cases h with
    | none => exact .none
    | some hr =>
      cases after.mapM f with
      | none => exact .none
      | some last => exact .some ⟨first, last, _, _, hr, rfl, rfl⟩

end

/-- Related results stay related under related functions of them. -/
theorem rel_map {α β : Type} {r : α → α → Prop} {q : β → β → Prop} {f g : α → β}
    {x y : Option α} (h : Option.Rel r x y) (hf : ∀ a b, r a b → q (f a) (g b)) :
    Option.Rel q (x.map f) (y.map g) := by
  cases h with
  | none => exact .none
  | some hr => exact .some (hf _ _ hr)

theorem rel_bind {α β : Type} {r : α → α → Prop} {q : β → β → Prop} {f g : α → Option β}
    {x y : Option α} (h : Option.Rel r x y) (hf : ∀ a b, r a b → Option.Rel q (f a) (g b)) :
    Option.Rel q (x.bind f) (y.bind g) := by
  cases h with
  | none => exact .none
  | some hr => exact hf _ _ hr

theorem rel_refl {α : Type} {r : α → α → Prop} (hr : ∀ a, r a a) (x : Option α) :
    Option.Rel r x x := by
  cases x with
  | none => exact .none
  | some a => exact .some (hr a)

/-- What an operation becomes is similar to what the changed operation becomes. -/
def BlocksSimilar : Option Block → Option Block → Prop :=
  Option.Rel fun b b' => Content.Similar Eq (.block b) (.block b')

/-- Arguments that are similar blocks. -/
def ArgumentsSimilar (a a' : Arg) : Prop :=
  ∃ b b', Content.Similar Eq (.block b) (.block b') ∧ a = .block [b] ∧ a' = .block [b']

theorem Json.OperationChange.arrays {v w : Json} (h : OperationChange v w) :
    (∃ items, v = .arr items) ∧ ∃ items, w = .arr items := by
  cases h <;> exact ⟨⟨_, rfl⟩, _, rfl⟩

theorem arg?_similar {v w : Json} (hc : Json.OperationChange v w)
    (h : BlocksSimilar (block? v) (block? w)) :
    Option.Rel ArgumentsSimilar (arg? v) (arg? w) := by
  obtain ⟨⟨items, rfl⟩, items', rfl⟩ := hc.arrays
  rw [arg?_arr, arg?_arr]
  exact rel_map h fun b b' hb => ⟨b, b', hb, rfl, rfl⟩

theorem body?_similar {v w : Json} (h : BlocksSimilar (block? v) (block? w))
    (first last : List Json) :
    Option.Rel (Content.Similar Eq) (body? (.arr (first ++ v :: last)))
      (body? (.arr (first ++ w :: last))) := by
  refine rel_map (mapM_member h first last) ?_
  rintro _ _ ⟨before, after, b, b', hb, rfl, rfl⟩
  simpa using Content.Similar.group hb (before.map .block) (after.map .block)

/-- The values of a call, one of them changed. -/
theorem callValues?_similar {v w : Json} (h : Option.Rel ArgumentsSimilar (arg? v) (arg? w))
    (before after : List (String × Json)) (first last : List Json) :
    Option.Rel (fun xs ys => xs = ys ∨ ∃ before after a a', ArgumentsSimilar a a' ∧
        xs = before ++ a :: after ∧ ys = before ++ a' :: after)
      (callValues? (before ++ ("service_call_values", .arr (first ++ v :: last)) :: after))
      (callValues? (before ++ ("service_call_values", .arr (first ++ w :: last)) :: after)) := by
  induction before with
  | nil =>
    simp only [List.nil_append, callValues?_cons, if_true]
    have hm := mapM_member h first last
    generalize (first ++ v :: last).mapM arg? = x at hm ⊢
    generalize (first ++ w :: last).mapM arg? = y at hm ⊢
    cases hm with
    | none => exact .none
    | some hr =>
      obtain ⟨before, after, a, a', ha, hx, hy⟩ := hr
      exact .some (.inr ⟨before, after, a, a', ha, hx, hy⟩)
  | cons field before ih =>
    obtain ⟨name, u⟩ := field
    simp only [List.cons_append, callValues?_cons]
    split
    · exact rel_refl (fun _ => .inl rfl) _
    · exact ih

theorem fieldOrNull_change {name other : String} (hn : name ≠ other) (v w : Json)
    (before after : List (String × Json)) :
    fieldOrNull (before ++ (other, v) :: after) name =
      fieldOrNull (before ++ (other, w) :: after) name := by
  have hb : (name == other) = false := by simpa using hn
  simp [fieldOrNull, List.lookup_append, List.lookup_cons, hb]

theorem withElse_member (before after : List Content) :
    ∃ after', ∀ c, Lowering.withElse (before ++ c :: after) = before ++ c :: after' := by
  by_cases h : before.length + (after.length + 1) < 2
  · exact ⟨after ++ [.group []], fun c => by simp [Lowering.withElse, h]⟩
  · exact ⟨after, fun c => by simp [Lowering.withElse, h]⟩

/-- A changed operation becomes a similar block. -/
theorem Json.OperationChange.similar {v w : Json} (h : OperationChange v w) :
    BlocksSimilar (block? v) (block? w) := by
  have hf := Operation.ofTag?_tag .forkExecution
  have hi := Operation.ofTag?_tag .ifElse
  induction h with
  | operands ht h =>
    rename_i tag operands operands'
    have hp : IsPlainTag tag := by
      unfold IsPlainTag
      rcases ht with rfl | rfl <;> decide
    rw [block?_plain hp, block?_plain hp]
    exact rel_map (mapM_perm h) fun xs ys hp => .of_change (.operands ht hp)
  | paths h =>
    rename_i args paths paths' rest
    rw [block?_fork hf, block?_fork hf]
    cases args with
    | arr args =>
      refine rel_bind (mapM_perm h) fun xs ys hp => ?_
      refine rel_map (r := Eq) (rel_refl (fun _ => rfl) _) ?_
      rintro a _ rfl
      exact .of_change (.paths hp)
    | _ => exact .none
  | defaultExit =>
    rename_i before after rest
    have hargs : Option.Rel (fun xs ys => ∃ first last,
        xs = first ++ .constant exitWhenAllCompleted :: last ∧ ys = first ++ last)
        ((before ++ .str exitWhenAllCompleted :: after).mapM arg?)
        ((before ++ after).mapM arg?) := by
      rw [List.mapM_append, List.mapM_append, List.mapM_cons]
      cases before.mapM arg? with
      | none => exact .none
      | some first =>
        cases after.mapM arg? with
        | none => exact .none
        | some last => exact .some ⟨first, last, rfl, rfl⟩
    rw [block?_fork hf, block?_fork hf]
    rcases rest with _ | ⟨_ | _ | _ | _ | _ | paths | _, rest⟩
    case nil =>
      refine rel_map hargs ?_
      rintro _ _ ⟨first, last, rfl, rfl⟩
      exact .of_change .defaultExit
    case cons.arr =>
      refine rel_bind (r := Eq) (rel_refl (fun _ => rfl) _) ?_
      rintro contents _ rfl
      refine rel_map hargs ?_
      rintro _ _ ⟨first, last, rfl, rfl⟩
      exact .of_change .defaultExit
    all_goals exact .none
  | argument ht h ih =>
    rename_i tag before after v w
    rw [block?_plain ht, block?_plain ht]
    refine rel_map (mapM_member (arg?_similar h ih) before after) ?_
    rintro _ _ ⟨first, last, _, _, ⟨b, b', hb, rfl, rfl⟩, rfl, rfl⟩
    exact hb.argument .null tag first last [] [] []
  | callValue h ih =>
    rename_i before after first last rest v w
    rw [block?_call (Operation.ofTag?_tag _), block?_call (Operation.ofTag?_tag _)]
    refine rel_map (callValues?_similar (arg?_similar h ih) before after first last) ?_
    rw [fieldOrNull_change (by decide) (.arr (first ++ v :: last)) (.arr (first ++ w :: last)),
      fieldOrNull_change (by decide) (.arr (first ++ v :: last)) (.arr (first ++ w :: last))]
    rintro xs ys (rfl | ⟨xs, ys, _, _, ⟨b, b', hb, rfl, rfl⟩, rfl, rfl⟩)
    · exact .refl _
    · exact hb.callValue _ _ _ _ xs ys [] [] []
  | condition h ih =>
    rename_i branches v w
    rw [block?_conditional hi, block?_conditional hi]
    simp only
    split
    · exact .none
    · refine rel_bind (r := Eq) (rel_refl (fun _ => rfl) _) ?_
      rintro contents _ rfl
      refine rel_map (arg?_similar h ih) ?_
      rintro _ _ ⟨b, b', hb, rfl, rfl⟩
      exact hb.argument .null _ [] [] [] [] _
  | branch h ih =>
    rename_i condition before after first last v w
    rw [block?_conditional hi, block?_conditional hi]
    simp only [List.length_append, List.length_cons]
    split
    · exact .none
    · refine rel_bind (mapM_member (body?_similar ih first last) before after) ?_
      rintro _ _ ⟨xs, ys, c, c', hc, rfl, rfl⟩
      refine rel_map (r := Eq) (rel_refl (fun _ => rfl) _) ?_
      rintro a _ rfl
      obtain ⟨zs, hz⟩ := withElse_member xs ys
      rw [hz, hz]
      exact Content.Similar.content hc .null _ _ xs zs
  | forkArgument h ih =>
    rename_i before after rest v w
    rw [block?_fork hf, block?_fork hf]
    have hargs := mapM_member (arg?_similar h ih) before after
    rcases rest with _ | ⟨_ | _ | _ | _ | _ | paths | _, rest⟩
    case nil =>
      refine rel_map hargs ?_
      rintro _ _ ⟨first, last, _, _, ⟨b, b', hb, rfl, rfl⟩, rfl, rfl⟩
      exact hb.argument .null _ first last [] [] []
    case cons.arr =>
      refine rel_bind (r := Eq) (rel_refl (fun _ => rfl) _) ?_
      rintro contents _ rfl
      refine rel_map hargs ?_
      rintro _ _ ⟨first, last, _, _, ⟨b, b', hb, rfl, rfl⟩, rfl, rfl⟩
      exact hb.argument .null _ first last [] [] contents
    all_goals exact .none
  | path h ih =>
    rename_i args before after first last rest v w
    rw [block?_fork hf, block?_fork hf]
    cases args with
    | arr args =>
      refine rel_bind (mapM_member (body?_similar ih first last) before after) ?_
      rintro _ _ ⟨xs, ys, c, c', hc, rfl, rfl⟩
      refine rel_map (r := Eq) (rel_refl (fun _ => rfl) _) ?_
      rintro a _ rfl
      exact Content.Similar.content hc .null _ _ xs ys
    | _ => exact .none

/-- Equivalent programs become similar trees, if they become trees at all. -/
theorem Json.Equivalent.similar {p q : Json} (h : Json.Equivalent p q) :
    Option.Rel (fun t t' => Content.Similar Eq (Graph.body t) (Graph.body t')) p.tree? q.tree? := by
  induction h with
  | rel p q h =>
    obtain ⟨before, after, v, w, hc, rfl, rfl⟩ := h
    have hs := mapM_member hc.similar before after
    simp only [tree?]
    generalize (before ++ v :: after).mapM block? = x at hs ⊢
    generalize (before ++ w :: after).mapM block? = y at hs ⊢
    cases hs with
    | none => exact .none
    | some hr =>
      obtain ⟨first, last, b, b', hb, rfl, rfl⟩ := hr
      refine .some ?_
      simpa [Graph.body] using Content.Similar.group hb (first.map .block) (last.map .block)
  | refl p => exact rel_refl (fun t => .refl _) _
  | symm p q _ ih =>
    generalize p.tree? = x at ih ⊢
    generalize q.tree? = y at ih ⊢
    cases ih with
    | none => exact .none
    | some hs => exact .some hs.symm
  | trans p q r _ _ ih ih' =>
    generalize p.tree? = x at ih ⊢
    generalize q.tree? = y at ih ih'
    generalize r.tree? = z at ih' ⊢
    cases ih with
    | none => exact ih'
    | some hs =>
      cases ih' with
      | some hs' => exact .some (hs.trans hs')

end BlockFlow
