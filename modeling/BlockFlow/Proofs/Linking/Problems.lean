import Mathlib
import BlockFlow.Proofs.Canonical.Forms
import BlockFlow.Proofs.Linking.Verification

/-! How many problems the check of a graph finds: one for each block without an id, one for each
block whose id was there before, and one for each reference that leads nowhere. -/

namespace BlockFlow

/-! ### Ids -/

/-- The keys of the ids that blocks have. -/
def keysOf (blocks : List Block) : List Key :=
  blocks.filterMap fun b => if b.hasId then b.id.key? else none

section

variable {b : Block} {blocks rest : List Block} {key : Key}

theorem keysOf_cons_some (hb : b.hasId = true) (hk : b.id.key? = some key) :
    keysOf (b :: rest) = key :: keysOf rest := by
  simp [keysOf, hb, hk]

theorem keysOf_cons_none (hb : b.hasId = false) : keysOf (b :: rest) = keysOf rest := by
  simp [keysOf, hb]

/-- Each block with an id gives one key. -/
theorem length_keysOf (h : ∀ b ∈ blocks, b.hasId = true → b.id.key? ≠ none) :
    (keysOf blocks).length = (blocks.filter Block.hasId).length := by
  induction blocks with
  | nil => rfl
  | cons b rest ih =>
    obtain ⟨hself, hrest⟩ := List.forall_mem_cons.mp h
    by_cases hb : b.hasId = true
    · obtain ⟨key, hk⟩ := Option.ne_none_iff_exists'.mp (hself hb)
      rw [keysOf_cons_some hb hk, List.filter_cons_of_pos hb, List.length_cons, List.length_cons,
        ih hrest]
    · rw [keysOf_cons_none (by simpa using hb), List.filter_cons_of_neg hb, ih hrest]

theorem blockKeys_eq (h : ∀ b ∈ blocks, b.hasId = true → b.id.key? ≠ none) :
    blockKeys blocks = .ok (keysOf blocks) := by
  induction blocks with
  | nil => rfl
  | cons b rest ih =>
    obtain ⟨hself, hrest⟩ := List.forall_mem_cons.mp h
    by_cases hb : b.hasId = true
    · obtain ⟨key, hk⟩ := Option.ne_none_iff_exists'.mp (hself hb)
      rw [blockKeys, if_pos hb, ih hrest, keysOf_cons_some hb hk, Json.key, hk]
      rfl
    · rw [blockKeys, if_neg hb, ih hrest, keysOf_cons_none (by simpa using hb)]

/-- Of the blocks, those pass without a problem that bring a key not seen before. -/
theorem length_idProblems (h : ∀ b ∈ blocks, b.hasId = true → b.id.key? ≠ none)
    (seen : List Key) :
    (idProblems seen blocks).length + ((keysOf blocks).toFinset \ seen.toFinset).card =
      blocks.length := by
  induction blocks generalizing seen with
  | nil => simp [idProblems, keysOf]
  | cons b rest ih =>
    obtain ⟨hself, hrest⟩ := List.forall_mem_cons.mp h
    by_cases hb : b.hasId = true
    · obtain ⟨key, hk⟩ := Option.ne_none_iff_exists'.mp (hself hb)
      rw [keysOf_cons_some hb hk, List.toFinset_cons, idProblems, if_pos hb, hk]
      by_cases hs : key ∈ seen
      · have hcount := ih hrest seen
        simp only [hs, if_true, List.length_cons]
        rw [Finset.insert_sdiff_of_mem _ (by simpa using hs)]
        omega
      · have hcount := ih hrest (key :: seen)
        have hnew : insert key (keysOf rest).toFinset \ seen.toFinset =
            insert key ((keysOf rest).toFinset \ (key :: seen).toFinset) := by
          ext k
          by_cases hkey : k = key <;> simp [hkey, hs]
        rw [hnew, Finset.card_insert_of_notMem (by simp)]
        simp only [hs, if_false, List.length_cons]
        omega
    · have hcount := ih hrest seen
      rw [idProblems, if_neg hb, keysOf_cons_none (by simpa using hb)]
      simp only [List.length_cons]
      omega

end

/-! ### References -/

/-- The texts that are ids of blocks. -/
def Graph.texts (g : Graph) : List String :=
  g.blocks.filterMap fun b =>
    match b.id with
    | .str text => some text
    | _ => none

/-- The texts by which blocks can be referred to. The empty text counts as no id. -/
def Graph.names (g : Graph) : List String := g.texts.filter (· ≠ "")

theorem Json.key?_eq_str {v : Json} {text : String} :
    v.key? = some (.str text) ↔ v = .str text := by
  cases v with
  | float x =>
    cases hx : x.toInt? <;> simp [Json.key?, hx]
  | _ => simp [Json.key?]

theorem Graph.mem_texts {g : Graph} {text : String} :
    text ∈ g.texts ↔ ∃ b ∈ g.blocks, b.id = .str text := by
  simp only [Graph.texts, List.mem_filterMap]
  refine exists_congr fun b => and_congr_right fun _ => ?_
  cases b.id <;> simp

theorem str_mem_keysOf {g : Graph} (text : String) :
    Key.str text ∈ keysOf g.blocks ↔ text ∈ g.names := by
  simp only [keysOf, List.mem_filterMap, Graph.names, List.mem_filter, Graph.mem_texts,
    Option.ite_none_right_eq_some, Json.key?_eq_str, decide_eq_true_eq]
  constructor
  · rintro ⟨b, hb, hid, he⟩
    exact ⟨⟨b, hb, he⟩, by simpa [Block.hasId, he, Json.truthy] using hid⟩
  · rintro ⟨⟨b, hb, he⟩, hne⟩
    exact ⟨b, hb, by simpa [Block.hasId, he, Json.truthy] using hne, he⟩

theorem length_targetProblems {keys : List Key} {ids : List String}
    (hk : ∀ id, Key.str id ∈ keys ↔ id ∈ ids) (blocks : List Block) :
    (blocks.filterMap (targetProblem? keys)).length =
      (blocks.filter (Block.isDangling ids)).length := by
  induction blocks with
  | nil => rfl
  | cons b rest ih =>
    rw [List.filterMap_cons, List.filter_cons, targetProblem?_eq hk]
    split <;> simp_all

theorem isLinkPrimitive_iff {type : String} : isLinkPrimitive type = true ↔
    type ∈ [Operation.jumpToBlock.tag, Operation.triggerWhenAllCompleted.tag,
      Operation.triggerWhenFirstCompleted.tag] := by
  constructor
  · intro h
    unfold isLinkPrimitive at h
    split at h
    · next operation ho =>
      obtain rfl := Operation.ofTag?_eq_some.mp ho
      cases operation <;> simp_all [Operation.linkPrimitive]
    · simp at h
  · intro h
    simp only [List.mem_cons, List.not_mem_nil, or_false] at h
    rcases h with rfl | rfl | rfl <;> decide

theorem Block.isDangling_eq_false {ids : List String} {b : Block} :
    b.isDangling ids = false ↔
      (isLinkPrimitive b.type = true → ∃ args target, b.args = .list args ∧
        (Arg.constants args).head? = some target ∧ target ∈ ids) := by
  have htarget : b.args.target?.any (fun target => decide (target ∈ ids)) = true ↔
      ∃ args target, b.args = .list args ∧ (Arg.constants args).head? = some target ∧
        target ∈ ids := by
    cases b.args <;> simp [Args.target?, Option.any_eq_true]
  rw [Block.isDangling, ← htarget]
  simp

/-! ### The check -/

/-- Blocks without an id, blocks with an id beyond the distinct ones, and references that lead to
none of some ids. -/
def Graph.problemCount (g : Graph) (ids : List String) : Nat :=
  (g.blocks.filter fun b => !b.hasId).length +
    ((g.blocks.filter Block.hasId).length - (keysOf g.blocks).toFinset.card) +
    (g.blocks.filter (Block.isDangling ids)).length

variable {g : Graph}

theorem exists_verify_length (hg : g.Keyed) :
    ∃ problems, g.verify = .ok problems ∧ problems.length = g.problemCount g.names := by
  refine ⟨idProblems [] g.blocks ++ g.blocks.filterMap (targetProblem? (keysOf g.blocks)), ?_, ?_⟩
  · rw [Graph.verify, blockKeys_eq hg]
    rfl
  · have hids := length_idProblems hg []
    have hkeys := length_keysOf hg
    have hdistinct := (keysOf g.blocks).toFinset_card_le
    have hsplit := g.blocks.length_eq_length_filter_add Block.hasId
    simp only [List.toFinset_nil, Finset.sdiff_empty] at hids
    rw [List.length_append, length_targetProblems str_mem_keysOf, Graph.problemCount]
    omega

theorem problemCount_eq_zero (hg : g.Keyed) : g.problemCount g.names = 0 ↔
    (∀ b ∈ g.blocks, b.hasId = true) ∧ (keysOf g.blocks).Nodup ∧
      ∀ b ∈ g.blocks, b.isDangling g.names = false := by
  have hkeys := length_keysOf hg
  have hdistinct := (keysOf g.blocks).toFinset_card_le
  have hnodup : (keysOf g.blocks).toFinset.card = (keysOf g.blocks).length ↔
      (keysOf g.blocks).Nodup := Multiset.toFinset_card_eq_card_iff_nodup
  have hbeyond : (g.blocks.filter Block.hasId).length - (keysOf g.blocks).toFinset.card = 0 ↔
      (keysOf g.blocks).Nodup := by
    rw [← hnodup]
    omega
  rw [Graph.problemCount, Nat.add_eq_zero_iff, Nat.add_eq_zero_iff, hbeyond, and_assoc]
  simp

/-- The check is exact. It finds as many problems as there are blocks without an id, blocks with an
id that was there before, and references that lead to no block with an id. -/
theorem verify_exact (hg : g.Keyed) :
    ∃ problems, g.verify = .ok problems ∧ problems.length = g.problemCount g.names ∧
      (problems = [] ↔
        (∀ b ∈ g.blocks, b.id.truthy = true) ∧ (keysOf g.blocks).Nodup ∧
          ∀ b ∈ g.blocks, b.type ∈ [Operation.jumpToBlock.tag,
            Operation.triggerWhenAllCompleted.tag, Operation.triggerWhenFirstCompleted.tag] →
              ∃ args target, b.args = .list args ∧ (Arg.constants args).head? = some target ∧
                ∃ c ∈ g.blocks, c.id = .str target) := by
  obtain ⟨problems, hv, hlength⟩ := exists_verify_length hg
  refine ⟨problems, hv, hlength, ?_⟩
  rw [← List.length_eq_zero_iff, hlength, problemCount_eq_zero hg]
  refine and_congr_right fun hids => and_congr_right fun _ => ?_
  have hname (target : String) : target ∈ g.names ↔ ∃ c ∈ g.blocks, c.id = .str target := by
    rw [Graph.names, List.mem_filter, Graph.mem_texts, and_iff_left_iff_imp]
    rintro ⟨c, hc, he⟩
    simpa [Block.hasId, he, Json.truthy] using hids c hc
  simp only [Block.isDangling_eq_false, isLinkPrimitive_iff, hname]

/-- A block whose id is the empty text, a jump to it, and two blocks with one key. -/
def emptyTarget : Graph :=
  [.mk (.str "") "op_log_value" (.list [.block [.mk (.int 1) "x" (.list []) []]]) [],
    .mk (.str "j") "jump_to_block" (.list [.constant ""])
      [.group [.block (.mk (.bool true) "y" (.monitor []) [])]]]

theorem emptyTarget_keyed : emptyTarget.Keyed :=
  exists_blockKeys_iff.mp ⟨[.int 1, .str "j", .int 1], rfl⟩

theorem emptyTarget_exact :
    emptyTarget.Keyed ∧ ∃ problems, emptyTarget.verify = .ok problems ∧ problems.length = 3 := by
  obtain ⟨problems, hv, hlength, _⟩ := verify_exact emptyTarget_keyed
  refine ⟨emptyTarget_keyed, problems, hv, hlength.trans ?_⟩
  decide

/-- The target of the jump is the id of a block, and the jump is a problem all the same. -/
theorem emptyTarget_unresolved :
    emptyTarget.Keyed ∧ (∃ c ∈ emptyTarget.blocks, c.id = .str "") ∧
      ∃ problems, emptyTarget.verify = .ok problems ∧
        problems.length ≠ emptyTarget.problemCount emptyTarget.texts := by
  refine ⟨emptyTarget_keyed, ⟨_, List.mem_cons_self, rfl⟩, _, rfl, ?_⟩
  decide

end BlockFlow
