import Mathlib
import BlockFlow.Proofs.Linking.Traversal

/-! What the check of a linked graph can find fault with: where ids are distinct and not empty, only
references that the source itself makes. -/

namespace BlockFlow

open Linking

/-- A linking primitive whose target is not among some ids. -/
def Block.isDangling (ids : List String) (b : Block) : Bool :=
  isLinkPrimitive b.type && !b.args.target?.any fun target => decide (target ∈ ids)

/-- What the check says of a dangling block that has an id. -/
def Block.complaint (b : Block) (id : Json) : Problem :=
  match b.args.target? with
  | none => .noTarget id b.type
  | some target => .unknownTarget id target

theorem Args.SameForm.target?_eq {args args' : Args} (h : args.SameForm args') :
    args'.target? = args.target? := by
  cases h with
  | list h => simp only [Args.target?, h]
  | _ => rfl

theorem targetProblem?_eq {keys : List Key} {ids : List String}
    (hk : ∀ id, Key.str id ∈ keys ↔ id ∈ ids) (b : Block) :
    targetProblem? keys b = if b.isDangling ids then some (b.complaint b.id) else none := by
  unfold targetProblem? Block.isDangling Block.complaint
  cases isLinkPrimitive b.type with
  | false => simp
  | true =>
    cases b.args.target? with
    | none => simp
    | some target => by_cases ht : target ∈ ids <;> simp [hk, ht]

/-- The problems with targets are those of copies of dangling blocks, one each. -/
theorem Interleaved.targetProblems {known : String → Prop} {a : Nat} {xs ys : List Block}
    (h : Interleaved known a xs ys) {keys : List Key} {ids : List String}
    (hk : ∀ id, Key.str id ∈ keys ↔ id ∈ ids) (hi : ∀ id, known id → id ∈ ids) :
    List.Forall₂ (fun b problem => ∃ id, problem = b.complaint id)
      (xs.filter (Block.isDangling ids)) (ys.filterMap (targetProblem? keys)) := by
  induction h with
  | nil => exact .nil
  | @copy _ _ _ b copy hc _ ih =>
    have ht : copy.args.target? = b.args.target? := hc.args.target?_eq
    have hd : copy.isDangling ids = b.isDangling ids := by
      simp only [Block.isDangling, ht, hc.type_eq]
    rw [List.filter_cons, List.filterMap_cons, targetProblem?_eq hk, hd]
    split
    · refine .cons ⟨copy.id, ?_⟩ ih
      simp only [Block.complaint, ht, hc.type_eq]
    · exact ih
  | @primitive _ _ _ b hp _ ih =>
    obtain ⟨id, hid, ha⟩ := hp.target
    have hd : b.isDangling ids = false := by
      simp [Block.isDangling, ha, Args.target?, Arg.constants, hi id hid]
    rw [List.filterMap_cons, targetProblem?_eq hk, hd]
    exact ih

/-- Blocks whose ids are texts, none of them empty. -/
def Labelled (blocks : List Block) : Prop := ∀ b ∈ blocks, ∃ text, text ≠ "" ∧ b.id = .str text

theorem Labelled.blockKeys {blocks : List Block} (h : Labelled blocks) :
    ∃ keys, blockKeys blocks = .ok keys ∧
      ∀ text, Key.str text ∈ keys ↔ .str text ∈ blocks.map Block.id := by
  induction blocks with
  | nil => exact ⟨[], rfl, by simp⟩
  | cons b rest ih =>
    obtain ⟨⟨text, hne, hid⟩, hr⟩ := List.forall_mem_cons.mp h
    obtain ⟨keys, hkeys, hmem⟩ := ih hr
    refine ⟨.str text :: keys, ?_, ?_⟩
    · simp [BlockFlow.blockKeys, Block.hasId, hid, Json.truthy, hne, Json.key, Json.key?, hkeys,
        bind, Except.bind, pure, Except.pure]
    · intro other
      simp [hid, hmem]

theorem Labelled.idProblems {blocks : List Block} (h : Labelled blocks)
    (hn : (blocks.map Block.id).Nodup) {seen : List Key}
    (hs : ∀ text, Key.str text ∈ seen → .str text ∉ blocks.map Block.id) :
    idProblems seen blocks = [] := by
  induction blocks generalizing seen with
  | nil => rfl
  | cons b rest ih =>
    obtain ⟨⟨text, hne, hid⟩, hr⟩ := List.forall_mem_cons.mp h
    rw [List.map_cons, List.nodup_cons, hid] at hn
    have hfresh : Key.str text ∉ seen := by
      intro hm
      exact hs text hm (by simp [hid])
    have hrest : BlockFlow.idProblems (.str text :: seen) rest = [] := by
      apply ih hr hn.2
      intro other hm
      rcases List.mem_cons.mp hm with he | hm
      · cases he
        exact hn.1
      · exact fun hin => hs other hm (List.mem_cons_of_mem _ hin)
    simp [BlockFlow.idProblems, Block.hasId, hid, Json.truthy, hne, Json.key?, hfresh, hrest]

variable {idAt : Nat → String} {n k a : Nat} {outer : List String} {xs ys : List Block}

theorem LinkedBlocks.labelled (h : LinkedBlocks idAt outer n k a xs ys)
    (hne : ∀ j, idAt j ≠ "") : Labelled ys := by
  intro y hy
  have hm := h.ids.mem_iff.mp (List.mem_map_of_mem hy)
  obtain ⟨j, _, hj⟩ := List.mem_map.mp hm
  exact ⟨idAt j, hne j, hj.symm⟩

theorem LinkedBlocks.nodup (h : LinkedBlocks idAt outer n k a xs ys)
    (hi : Function.Injective idAt) : (ys.map Block.id).Nodup := by
  rw [h.ids.nodup_iff]
  refine List.Nodup.map ?_ List.nodup_range'
  intro i j hij
  exact hi (Json.str.inj hij)

/-- The ids from the number `n` up to the number `k`. -/
def idsBetween (idAt : Nat → String) (n k : Nat) : List String :=
  (List.range' n (k - n)).map idAt

/-- The check of linked blocks finds fault with dangling blocks of the tree, and with nothing
else. -/
theorem LinkedBlocks.verify {tree g : Graph} (h : LinkedBlocks idAt [] n k a tree.blocks g.blocks)
    (hi : Function.Injective idAt) (hne : ∀ j, idAt j ≠ "") :
    ∃ problems, g.verify = .ok problems ∧
      List.Forall₂ (fun b problem => ∃ id, problem = b.complaint id)
        (tree.blocks.filter (Block.isDangling (idsBetween idAt n k))) problems := by
  have hl := h.labelled hne
  obtain ⟨keys, hkeys, hmem⟩ := hl.blockKeys
  have hids : idProblems [] g.blocks = [] := hl.idProblems (h.nodup hi) (by simp)
  have hk : ∀ id, Key.str id ∈ keys ↔ id ∈ idsBetween idAt n k := by
    intro id
    rw [hmem, h.ids.mem_iff]
    simp [idsBetween]
  refine ⟨g.blocks.filterMap (targetProblem? keys), ?_, h.blocks.targetProblems hk ?_⟩
  · simp [Graph.verify, hkeys, hids, bind, Except.bind, pure, Except.pure]
  · rintro id (hm | ⟨j, hj, hjk, rfl⟩)
    · simp at hm
    · exact List.mem_map_of_mem (List.mem_range'_1.mpr ⟨hj, by omega⟩)

/-! ### Numbered ids -/

theorem IdSupply.idAt_sequential {s : IdSupply} {label : String}
    (hs : s.strategy = .sequential label) (j : Nat) :
    s.idAt j = label ++ toString (s.counter + j + 1) := by
  simp only [IdSupply.idAt, hs]

theorem IdSupply.idAt_injective {s : IdSupply} {label : String}
    (hs : s.strategy = .sequential label) : Function.Injective s.idAt := by
  intro i j hij
  rw [idAt_sequential hs, idAt_sequential hs, String.append_right_inj] at hij
  have hn : s.counter + i + 1 = s.counter + j + 1 := Nat.repr_injective hij
  omega

theorem IdSupply.idAt_ne_empty {s : IdSupply} {label : String}
    (hs : s.strategy = .sequential label) (j : Nat) : s.idAt j ≠ "" := by
  rw [idAt_sequential hs]
  intro he
  have hl := congrArg String.length he
  simp at hl

end BlockFlow
