import Mathlib
import BlockFlow.Proofs.Linking.Outcomes
import BlockFlow.Proofs.Linking.Verification

/-! Linkings that take their ids from one supply, one after the other. Their graphs share no id, and
next to each other they are what linking all the trees at once gives. -/

namespace BlockFlow

open Linking

variable {idAt : Nat → String} {d : Nat}

/-! ### Linking elsewhere -/

/-- The ids taken before do not matter to a linking that succeeds. -/
theorem Links.shift {p : Fragment} {n k : Nat} {r : p.Linked}
    (h : Links (fun j => idAt (d + j)) p n r k) : Links idAt p (d + n) r (d + k) := by
  induction h with
  | plain hf _ _ iha ihc => exact .plain hf iha ihc
  | fork _ _ iha ihp => exact .fork iha ihp
  | list _ ih => exact .list ih
  | monitor => exact .monitor
  | call _ ih => exact .call ih
  | argsNil => exact .argsNil
  | argsConstant _ ih => exact .argsConstant ih
  | argsBlock hf _ _ ihv ihr => exact .argsBlock hf ihv ihr
  | pathsNil => exact .pathsNil
  | pathsCons _ _ ihb ihr => exact .pathsCons ihb ihr
  | contentsNil => exact .contentsNil
  | contentsGroup _ _ ihb ihr => exact .contentsGroup ihb ihr
  | contentsBlock _ _ ihb ihr => exact .contentsBlock ihb ihr
  | blocksNil => exact .blocksNil
  | blocksCons _ _ ihb ihr => exact .blocksCons ihb ihr

/-! ### Trees next to each other -/

theorem Block.isDangling_mono {ids ids' : List String} (hsub : ids ⊆ ids') {b : Block}
    (h : b.isDangling ids = false) : b.isDangling ids' = false := by
  simp only [Block.isDangling, Bool.and_eq_false_imp, Bool.not_eq_false', Option.any_eq_true,
    decide_eq_true_eq] at h ⊢
  intro hp
  obtain ⟨target, ht, hm⟩ := h hp
  exact ⟨target, ht, hsub hm⟩

theorem idsBetween_subset {n n' k k' : Nat} (hn : n' ≤ n) (hk : k ≤ k') :
    idsBetween idAt n k ⊆ idsBetween idAt n' k' := by
  refine List.map_subset idAt ?_
  intro j hj
  rw [List.mem_range'_1] at hj ⊢
  omega

theorem LinkedBlocks.verify_eq_nil {n k a : Nat} {tree g : Graph}
    (h : LinkedBlocks idAt [] n k a tree.blocks g.blocks) (hi : Function.Injective idAt)
    (hne : ∀ j, idAt j ≠ "") :
    g.verify = .ok [] ↔ ∀ b ∈ tree.blocks, b.isDangling (idsBetween idAt n k) = false := by
  obtain ⟨problems, hv, hp⟩ := h.verify hi hne
  have hnil : problems = [] ↔
      tree.blocks.filter (Block.isDangling (idsBetween idAt n k)) = [] := by
    rw [← List.length_eq_zero_iff, ← hp.length_eq, List.length_eq_zero_iff]
  rw [hv, Except.ok.injEq, hnil]
  simp

/-- Linking a tree, and then another with the ids that are left, links both together. -/
theorem linkGraph_append {m k : Nat} {x y g h : Graph} (hi : Function.Injective idAt)
    (hne : ∀ j, idAt j ≠ "") (hx : (linkGraph idAt x).Yields 0 g m)
    (hy : (linkGraph (fun j => idAt (m + j)) y).Yields 0 h k) :
    (linkGraph idAt (x ++ y)).Yields 0 (g ++ h) (m + k) := by
  obtain ⟨hbx, hvx⟩ := linkGraph_yields.mp hx
  obtain ⟨hby, hvy⟩ := linkGraph_yields.mp hy
  have hdx := (LinkedBlocks.verify_eq_nil hbx.graph hi hne).mp hvx
  have hdy := (LinkedBlocks.verify_eq_nil hby.shift.graph hi hne).mp hvy
  have hboth := hbx.append hby.shift
  refine linkGraph_yields.mpr ⟨hboth, (LinkedBlocks.verify_eq_nil hboth.graph hi hne).mpr ?_⟩
  intro b hb
  rw [Graph.blocks, Block.listBlocks_append, List.mem_append] at hb
  rcases hb with hb | hb
  · exact Block.isDangling_mono (idsBetween_subset le_rfl (by omega)) (hdx b hb)
  · exact Block.isDangling_mono (idsBetween_subset (by omega) le_rfl) (hdy b hb)

/-! ### Runs -/

/-- Links trees one after the other. The ids that a failed linking took are gone for the rest. -/
def IdSupply.linkAll (s : IdSupply) : List Graph → List (Except LinkError Graph) × IdSupply
  | [] => ([], s)
  | tree :: rest =>
    let (result, t) := s.link tree
    let (results, u) := t.linkAll rest
    (result :: results, u)

/-- The ids of the graph that linking gave, if it gave one. -/
def linkedIds : Except LinkError Graph → List Json
  | .ok g => g.blocks.map Block.id
  | .error _ => []

theorem IdSupply.linkAll_cons {s t : IdSupply} {tree : Graph} {result : Except LinkError Graph}
    (h : s.link tree = (result, t)) (rest : List Graph) :
    s.linkAll (tree :: rest) = (result :: (t.linkAll rest).1, (t.linkAll rest).2) := by
  simp only [IdSupply.linkAll, h]

theorem IdSupply.advance_counter (s : IdSupply) (k : Nat) :
    (s.advance k).counter = s.counter + k := by
  unfold IdSupply.advance
  split <;> rfl

theorem IdSupply.advance_strategy (s : IdSupply) (k : Nat) :
    (s.advance k).strategy = s.strategy := by
  unfold IdSupply.advance
  split <;> rfl

theorem IdSupply.advance_advance (s : IdSupply) (m k : Nat) :
    (s.advance m).advance k = s.advance (m + k) := by
  rcases s with ⟨strategy, counter, random, drawn⟩
  cases strategy <;> simp [IdSupply.advance, Nat.add_assoc]

theorem IdSupply.idAt_advance (s : IdSupply) (m : Nat) :
    (s.advance m).idAt = fun j => s.idAt (m + j) := by
  funext j
  rcases s with ⟨strategy, counter, random, drawn⟩
  cases strategy <;> simp [IdSupply.advance, IdSupply.idAt, Nat.add_assoc]

/-- Between two states of a supply these ids were given out, none of them twice. -/
structure IdSupply.Span (label : String) (s t : IdSupply) (ids : List Json) : Prop where
  strategy : t.strategy = .sequential label
  le : s.counter ≤ t.counter
  nodup : ids.Nodup
  numbered : ∀ id ∈ ids,
    ∃ j, s.counter ≤ j ∧ j < t.counter ∧ id = .str (label ++ toString (j + 1))

variable {label : String} {s t u : IdSupply}

theorem IdSupply.Span.refl (hs : s.strategy = .sequential label) : s.Span label s [] :=
  ⟨hs, le_rfl, List.nodup_nil, by simp⟩

theorem IdSupply.Span.trans {ids ids' : List Json} (h : s.Span label t ids)
    (h' : t.Span label u ids') : s.Span label u (ids ++ ids') := by
  have hle := h.le
  have hle' := h'.le
  refine ⟨h'.strategy, hle.trans hle', ?_, ?_⟩
  · refine List.nodup_append.mpr ⟨h.nodup, h'.nodup, ?_⟩
    rintro id hm _ hm' rfl
    obtain ⟨i, _, hi, rfl⟩ := h.numbered id hm
    obtain ⟨j, hj, _, he⟩ := h'.numbered _ hm'
    rw [Json.str.injEq, String.append_right_inj] at he
    have hij : i + 1 = j + 1 := Nat.repr_injective he
    omega
  · intro id hm
    rcases List.mem_append.mp hm with hm | hm
    · obtain ⟨j, hj, hjt, he⟩ := h.numbered id hm
      exact ⟨j, hj, by omega, he⟩
    · obtain ⟨j, hj, hjt, he⟩ := h'.numbered id hm
      exact ⟨j, by omega, hjt, he⟩

theorem IdSupply.link_counter {tree g : Graph} (h : s.link tree = (.ok g, t)) :
    t.counter = s.counter + g.blocks.length := by
  obtain ⟨k, hy, rfl⟩ := IdSupply.yields_of_link h
  have hl := (linkGraph_yields.mp hy).1.graph
  have hk := hl.length_eq
  rw [IdSupply.advance_counter]
  omega

/-- What one linking takes from the supply. -/
theorem IdSupply.link_span (hs : s.strategy = .sequential label) (tree : Graph) :
    s.Span label (s.link tree).2 (linkedIds (s.link tree).1) := by
  rcases s.link_cases tree with ⟨e, k, he⟩ | ⟨g, k, hy, he⟩
  · rw [he]
    refine ⟨?_, ?_, List.nodup_nil, by simp [linkedIds]⟩
    · rw [IdSupply.advance_strategy, hs]
    · rw [IdSupply.advance_counter]
      omega
  · rw [he]
    have hl := (linkGraph_yields.mp hy).1.graph
    refine ⟨?_, ?_, hl.nodup (IdSupply.idAt_injective hs), ?_⟩
    · rw [IdSupply.advance_strategy, hs]
    · rw [IdSupply.advance_counter]
      omega
    · intro id hm
      obtain ⟨j, hj, rfl⟩ := List.mem_map.mp (hl.ids.mem_iff.mp hm)
      rw [List.mem_range'_1] at hj
      refine ⟨s.counter + j, by omega, ?_, ?_⟩
      · rw [IdSupply.advance_counter]
        omega
      · rw [IdSupply.idAt_sequential hs]

/-- What a run takes from the supply. -/
theorem IdSupply.linkAll_span (hs : s.strategy = .sequential label) (trees : List Graph) :
    s.Span label (s.linkAll trees).2 ((s.linkAll trees).1.flatMap linkedIds) := by
  induction trees generalizing s with
  | nil => exact .refl hs
  | cons tree rest ih =>
    have hstep := IdSupply.link_span hs tree
    have hrest := ih hstep.strategy
    rw [IdSupply.linkAll_cons (Prod.mk.eta).symm rest, List.flatMap_cons]
    exact hstep.trans hrest

theorem linkGraph_nil : (linkGraph idAt []).Yields 0 [] 0 := rfl

/-- A run without a failure is one linking of all the trees. -/
theorem IdSupply.linkAll_yields (hs : s.strategy = .sequential label) {trees graphs : List Graph}
    (h : (s.linkAll trees).1 = graphs.map .ok) :
    ∃ k, (linkGraph s.idAt trees.flatten).Yields 0 graphs.flatten k ∧
      (s.linkAll trees).2 = s.advance k := by
  induction trees generalizing s graphs with
  | nil =>
    obtain rfl := List.map_eq_nil_iff.mp h.symm
    refine ⟨0, linkGraph_nil, ?_⟩
    rcases s with ⟨strategy, counter, random, drawn⟩
    cases strategy <;> rfl
  | cons tree rest ih =>
    rcases s.link_cases tree with ⟨e, m, he⟩ | ⟨g, m, hy, he⟩
    all_goals
      rw [IdSupply.linkAll_cons he] at h ⊢
      obtain ⟨g', graphs', rfl, hg, hr⟩ := List.map_eq_cons_iff.mp h.symm
    · simp at hg
    · obtain rfl := Except.ok.inj hg
      have hs' : (s.advance m).strategy = .sequential label := by
        rw [IdSupply.advance_strategy, hs]
      obtain ⟨k, hk, ha⟩ := ih hs' hr.symm
      refine ⟨m + k, ?_, by rw [ha, IdSupply.advance_advance]⟩
      rw [IdSupply.idAt_advance] at hk
      exact linkGraph_append (IdSupply.idAt_injective hs) (IdSupply.idAt_ne_empty hs) hy hk

/-- Linkings that share numbered ids. No id is given out twice, also not after a failed linking, a
linking that succeeds takes one id for each block of its graph, and if all succeed, their graphs
next to each other are what linking all the trees at once gives. -/
theorem linkAll_shares_ids (hs : s.strategy = .sequential label) (trees : List Graph) :
    ((s.linkAll trees).1.flatMap linkedIds).Nodup ∧
    (∀ (before : List Graph) (tree : Graph) (after : List Graph) (g : Graph) (t : IdSupply),
      trees = before ++ tree :: after → (s.linkAll before).2.link tree = (.ok g, t) →
        t.counter = (s.linkAll before).2.counter + g.blocks.length) ∧
    ∀ graphs : List Graph, (s.linkAll trees).1 = graphs.map .ok →
      s.link trees.flatten = (.ok graphs.flatten, (s.linkAll trees).2) ∧
        Graph.verify graphs.flatten = .ok [] := by
  refine ⟨(IdSupply.linkAll_span hs trees).nodup, ?_, ?_⟩
  · intro before tree after g t _ h
    exact IdSupply.link_counter h
  · intro graphs h
    obtain ⟨k, hy, ha⟩ := IdSupply.linkAll_yields hs h
    rw [ha]
    exact ⟨IdSupply.link_of_yields hy, (linkGraph_yields.mp hy).2⟩

def emptyPath : Graph := [.mk .null "op_fork_execution" (.list []) [.group []]]

def strayJump : Graph := [.mk .null "jump_to_block" (.list [.constant "nowhere"]) []]

def emptyPathGraph (fork join jump : String) : Graph :=
  [.mk (.str fork) "op_fork_execution" (.list [])
      [.group [.block (.mk (.str jump) "jump_to_block" (.list [.constant join]) [])]],
    .mk (.str join) "trigger_when_all_completed" (.list [.constant fork]) []]

def numberedIds : IdSupply := .start toString (.sequential "b")

/-- In the first run the jump cannot be linked, and the id it took stays unused. -/
theorem numberedIds_shared :
    ((numberedIds.linkAll [emptyPath, strayJump, emptyPath]).1.flatMap linkedIds =
        [.str "b1", .str "b3", .str "b2", .str "b5", .str "b7", .str "b6"] ∧
      ((numberedIds.linkAll [emptyPath, strayJump, emptyPath]).1.flatMap linkedIds).Nodup) ∧
    (numberedIds.link (emptyPath ++ emptyPath)).1 =
      .ok (emptyPathGraph "b1" "b2" "b3" ++ emptyPathGraph "b4" "b5" "b6") := by
  have hs : numberedIds.strategy = .sequential "b" := rfl
  refine ⟨⟨rfl, (linkAll_shares_ids hs _).1⟩, ?_⟩
  obtain ⟨_, _, hboth⟩ := linkAll_shares_ids hs [emptyPath, emptyPath]
  have hall := hboth [emptyPathGraph "b1" "b2" "b3", emptyPathGraph "b4" "b5" "b6"] rfl
  exact congrArg Prod.fst hall.1

end BlockFlow
