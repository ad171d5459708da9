import Mathlib
import BlockFlow.Proofs.Compilation
import BlockFlow.Proofs.Lowering.Changes

/-! The grammar of source programs, and that lowering succeeds on exactly the programs that it
describes. -/

namespace BlockFlow

open Json Lowering

mutual

/-- An operation of the source whose conditionals, at any depth, have `fewest` branches or more.
Fields that follow the ones named here are free. -/
inductive Json.IsOperation (fewest : Nat) : Json → Prop
  | monitor (descriptor : List (String × Json)) (rest : List Json) :
    IsOperation fewest (.arr (.str Operation.waitForMonitor.tag :: .obj descriptor :: rest))
  | bareCall (call : List (String × Json)) (rest : List Json)
      (hvalues : (fieldOrNull call "service_call_values").truthy = false) :
    IsOperation fewest (.arr (.str Operation.callService.tag :: .obj call :: rest))
  | call (call : List (String × Json)) (values rest : List Json)
      (hvalues : call.lookup "service_call_values" = some (.arr values))
      (hargs : ∀ v ∈ values, IsArgument fewest v) :
    IsOperation fewest (.arr (.str Operation.callService.tag :: .obj call :: rest))
  | conditional (condition : Json) (branches : List Json) (hfewest : fewest ≤ branches.length)
      (hmost : branches.length ≤ 2) (hcondition : IsArgument fewest condition)
      (hbranches : ∀ v ∈ branches, IsSequence fewest v) :
    IsOperation fewest (.arr (.str Operation.ifElse.tag :: condition :: branches))
  | emptyFork : IsOperation fewest (.arr [.str Operation.forkExecution.tag])
  | pathlessFork (args : List Json) (hargs : ∀ v ∈ args, IsArgument fewest v) :
    IsOperation fewest (.arr [.str Operation.forkExecution.tag, .arr args])
  | fork (args paths rest : List Json) (hargs : ∀ v ∈ args, IsArgument fewest v)
      (hpaths : ∀ v ∈ paths, IsSequence fewest v) :
    IsOperation fewest (.arr (.str Operation.forkExecution.tag :: .arr args :: .arr paths :: rest))
  | plain (tag : String) (fields : List Json)
      (htag : tag ∉ [Operation.waitForMonitor.tag, Operation.callService.tag,
        Operation.ifElse.tag, Operation.forkExecution.tag])
      (hargs : ∀ v ∈ fields, IsArgument fewest v) :
    IsOperation fewest (.arr (.str tag :: fields))

/-- A literal or an operation. -/
inductive Json.IsArgument (fewest : Nat) : Json → Prop
  | text (s : String) : IsArgument fewest (.str s)
  | bool (b : Bool) : IsArgument fewest (.bool b)
  | int (n : Int) : IsArgument fewest (.int n)
  | float (x : Double) : IsArgument fewest (.float x)
  | operation (v : Json) (h : IsOperation fewest v) : IsArgument fewest v

/-- A list of operations: a branch, a path or a whole program. -/
inductive Json.IsSequence (fewest : Nat) : Json → Prop
  | operations (members : List Json) (h : ∀ v ∈ members, IsOperation fewest v) :
    IsSequence fewest (.arr members)

end

/-- A block that, if it is a conditional, has more than `fewest` branches. Lowering adds an empty
branch to none or one, so for these numbers that means `fewest` branches in the source. -/
def Block.Branched (fewest : Nat) (b : Block) : Prop :=
  b.type = Operation.ifElse.tag → fewest < b.contents.length

variable {fewest : Nat} {v : Json} {b : Block}

theorem isPlainTag_iff {tag : String} : IsPlainTag tag ↔
    tag ∉ [Operation.waitForMonitor.tag, Operation.callService.tag, Operation.ifElse.tag,
      Operation.forkExecution.tag] := by
  simp [IsPlainTag, Operation.ofTag?_eq_some]

theorem withElse_length (hf : fewest ≤ 1) (branches : List Content) :
    fewest < (withElse branches).length ↔ fewest ≤ branches.length := by
  unfold withElse
  split
  · rw [List.length_append, List.length_singleton]
    omega
  · omega

theorem withElse_length_le {branches : List Content} (h : branches.length ≤ 2) :
    (withElse branches).length ≤ 2 := by
  unfold withElse
  split
  · rw [List.length_append, List.length_singleton]
    omega
  · exact h

theorem callValues?_eq_some_iff {call : List (String × Json)} {values : List Arg} :
    callValues? call = some values ↔
      ((fieldOrNull call "service_call_values").truthy = false ∧ values = []) ∨
      ∃ items, call.lookup "service_call_values" = some (.arr items) ∧
        items.mapM arg? = some values := by
  induction call with
  | nil =>
    have hnil : callValues? [] = some [] := rfl
    simp [hnil, fieldOrNull, Json.truthy, @eq_comm _ []]
  | cons field rest ih =>
    obtain ⟨name, v⟩ := field
    rw [callValues?_cons]
    by_cases hn : name = "service_call_values"
    · subst hn
      cases v with
      | arr items =>
        cases items with
        | nil => simp [fieldOrNull, Json.truthy, @eq_comm _ []]
        | cons item items => simp [fieldOrNull, Json.truthy]
      | _ => simp [fieldOrNull, @eq_comm _ []]
    · have hk : ("service_call_values" == name) = false := beq_eq_false_iff_ne.mpr (Ne.symm hn)
      rw [if_neg hn, ih]
      simp only [fieldOrNull, List.lookup, hk]

/-! ### What the grammar describes becomes blocks -/

section

variable {values : List Json} {Q : Block → Prop}

theorem exists_mapM_and {α β : Type} {f : α → Option β} {R : β → Prop} {xs : List α}
    (h : ∀ x ∈ xs, ∃ y, f x = some y ∧ R y) : ∃ ys, xs.mapM f = some ys ∧ ∀ y ∈ ys, R y := by
  obtain ⟨ys, hys⟩ := exists_mapM_iff.mpr fun x hx => (h x hx).imp fun _ => And.left
  refine ⟨ys, hys, ?_⟩
  intro y hy
  obtain ⟨x, hx, hxy⟩ := exists_of_mem_mapM hys hy
  obtain ⟨z, hz, hr⟩ := h x hx
  rw [hxy] at hz
  exact Option.some.inj hz ▸ hr

theorem exists_mapM_arg? (h : ∀ v ∈ values, ∃ a, arg? v = some a ∧ ∀ x ∈ a.blocks, Q x) :
    ∃ args, values.mapM arg? = some args ∧ ∀ x ∈ Arg.listBlocks args, Q x := by
  simp only [Arg.listBlocks_eq, List.forall_mem_flatMap]
  exact exists_mapM_and h

theorem exists_mapM_body? (h : ∀ v ∈ values, ∃ c, body? v = some c ∧ ∀ x ∈ c.blocks, Q x) :
    ∃ contents, values.mapM body? = some contents ∧ ∀ x ∈ Content.listBlocks contents, Q x := by
  simp only [Content.listBlocks_eq, List.forall_mem_flatMap]
  exact exists_mapM_and h

theorem exists_mapM_block? (h : ∀ v ∈ values, ∃ b, block? v = some b ∧ ∀ x ∈ b.blocks, Q x) :
    ∃ blocks, values.mapM block? = some blocks ∧ ∀ x ∈ Block.listBlocks blocks, Q x := by
  simp only [Block.listBlocks_eq, List.forall_mem_flatMap]
  exact exists_mapM_and h

end

theorem Block.branched_of_ne {id : Json} {type : String} {args : Args} {contents : List Content}
    (h : type ≠ Operation.ifElse.tag) : (Block.mk id type args contents).Branched fewest :=
  fun ht => absurd ht h

mutual

/-- An operation of the grammar becomes a block, and the conditionals in it show the branches that
the grammar asks for. -/
theorem Json.IsOperation.lowers (hf : fewest ≤ 1) {v : Json} : v.IsOperation fewest →
    ∃ b, v.block? = some b ∧ ∀ x ∈ b.blocks, x.Branched fewest
  | .monitor descriptor rest => by
    refine ⟨_, block?_monitor (Operation.ofTag?_tag _) _, Block.forall_blocks.mpr ⟨?_, ?_, ?_⟩⟩
    · exact Block.branched_of_ne (by decide)
    · simp [Args.blocks]
    · simp [Content.listBlocks]
  | .bareCall call rest hvalues => by
    have hv := callValues?_eq_some_iff.mpr (.inl ⟨hvalues, rfl⟩)
    rw [block?_call (Operation.ofTag?_tag _)]
    refine ⟨_, Option.map_eq_some_iff.mpr ⟨_, hv, rfl⟩, ?_⟩
    refine Block.forall_blocks.mpr ⟨?_, ?_, ?_⟩
    · exact Block.branched_of_ne (by decide)
    · simp [Args.blocks, Arg.listBlocks]
    · simp [Content.listBlocks]
  | .call call values rest hvalues hargs => by
    obtain ⟨args, ha, hblocks⟩ := exists_mapM_arg? fun v hv => (hargs v hv).lowers hf
    have hv := callValues?_eq_some_iff.mpr (.inr ⟨values, hvalues, ha⟩)
    rw [block?_call (Operation.ofTag?_tag _)]
    refine ⟨_, Option.map_eq_some_iff.mpr ⟨_, hv, rfl⟩, ?_⟩
    refine Block.forall_blocks.mpr ⟨?_, hblocks, ?_⟩
    · exact Block.branched_of_ne (by decide)
    · simp [Content.listBlocks]
  | .conditional condition branches hfewest hmost hcondition hbranches => by
    obtain ⟨arg, ha, hargs⟩ := hcondition.lowers hf
    obtain ⟨contents, hc, hinside⟩ := exists_mapM_body? fun v hv => (hbranches v hv).lowers hf
    have hlength : contents.length = branches.length := (mapM_eq_some.mp hc).length_eq.symm
    refine ⟨.mk .null Operation.ifElse.tag (.list [arg]) (withElse contents), ?_, ?_⟩
    · rw [block?_conditional (Operation.ofTag?_tag _)]
      simp [Nat.not_lt.mpr hmost, hc, ha]
    · refine Block.forall_blocks.mpr ⟨fun _ => ?_, ?_, ?_⟩
      · exact (withElse_length hf contents).mpr (hlength ▸ hfewest)
      · simpa [Args.blocks, Arg.listBlocks_eq] using hargs
      · rw [listBlocks_withElse]
        exact hinside
  | .emptyFork => by
    refine ⟨_, block?_fork (Operation.ofTag?_tag _) [], Block.forall_blocks.mpr ⟨?_, ?_, ?_⟩⟩
    · exact Block.branched_of_ne (by decide)
    · simp [Args.blocks, Arg.listBlocks]
    · simp [Content.listBlocks]
  | .pathlessFork args hargs => by
    obtain ⟨args', ha, hblocks⟩ := exists_mapM_arg? fun v hv => (hargs v hv).lowers hf
    rw [block?_fork (Operation.ofTag?_tag _)]
    refine ⟨_, Option.map_eq_some_iff.mpr ⟨_, ha, rfl⟩, ?_⟩
    refine Block.forall_blocks.mpr ⟨?_, hblocks, ?_⟩
    · exact Block.branched_of_ne (by decide)
    · simp [Content.listBlocks]
  | .fork args paths rest hargs hpaths => by
    obtain ⟨args', ha, hblocks⟩ := exists_mapM_arg? fun v hv => (hargs v hv).lowers hf
    obtain ⟨contents, hc, hinside⟩ := exists_mapM_body? fun v hv => (hpaths v hv).lowers hf
    refine ⟨.mk .null Operation.forkExecution.tag (.list args') contents, ?_, ?_⟩
    · rw [block?_fork (Operation.ofTag?_tag _)]
      simp [hc, ha]
    · exact Block.forall_blocks.mpr ⟨Block.branched_of_ne (by decide), hblocks, hinside⟩
  | .plain tag fields htag hargs => by
    obtain ⟨args, ha, hblocks⟩ := exists_mapM_arg? fun v hv => (hargs v hv).lowers hf
    rw [block?_plain (isPlainTag_iff.mpr htag)]
    refine ⟨_, Option.map_eq_some_iff.mpr ⟨_, ha, rfl⟩, ?_⟩
    refine Block.forall_blocks.mpr ⟨?_, hblocks, ?_⟩
    · exact Block.branched_of_ne fun ht => htag (by simp [ht])
    · simp [Content.listBlocks]

theorem Json.IsArgument.lowers (hf : fewest ≤ 1) {v : Json} : v.IsArgument fewest →
    ∃ a, v.arg? = some a ∧ ∀ x ∈ a.blocks, x.Branched fewest
  | .text s => ⟨.constant s, rfl, by simp [Arg.blocks]⟩
  | .bool b => ⟨_, rfl, by simp [Arg.blocks]⟩
  | .int n => ⟨_, rfl, by simp [Arg.blocks]⟩
  | .float x => ⟨_, rfl, by simp [Arg.blocks]⟩
  | .operation v h => by
    obtain ⟨b, hb, hblocks⟩ := h.lowers hf
    obtain ⟨tag, fields, rfl⟩ := block?_eq_some hb
    refine ⟨.block [b], ?_, ?_⟩
    · rw [arg?_arr, hb, Option.map_some]
    · simpa [Arg.blocks, Block.listBlocks] using hblocks

theorem Json.IsSequence.lowers (hf : fewest ≤ 1) {v : Json} : v.IsSequence fewest →
    ∃ c, v.body? = some c ∧ ∀ x ∈ c.blocks, x.Branched fewest
  | .operations members h => by
    obtain ⟨blocks, hb, hblocks⟩ := exists_mapM_block? fun v hv => (h v hv).lowers hf
    refine ⟨.group (blocks.map .block), ?_, ?_⟩
    · rw [body?, hb, Option.map_some]
    · simpa [Content.blocks, Content.listBlocks_map_block] using hblocks

end

/-! ### What becomes a block is in the grammar -/

/-- An operation is in the grammar if it becomes a block whose conditionals have the branches. -/
def Json.Grammatical (fewest : Nat) (v : Json) : Prop :=
  ∀ b, v.block? = some b → (∀ x ∈ b.blocks, x.Branched fewest) → v.IsOperation fewest

section

variable {values : List Json}

theorem exists_mem_of_mapM {α β : Type} {f : α → Option β} {xs : List α} {ys : List β} {x : α}
    (h : xs.mapM f = some ys) (hx : x ∈ xs) : ∃ y ∈ ys, f x = some y := by
  obtain ⟨y, hy⟩ := exists_mapM_iff.mp ⟨ys, h⟩ x hx
  exact ⟨y, mapM_eq_filterMap h ▸ List.mem_filterMap.mpr ⟨x, hx, hy⟩, hy⟩

theorem isArgument_of_arg? {a : Arg} (hv : v.Grammatical fewest) (h : arg? v = some a)
    (hb : ∀ x ∈ a.blocks, x.Branched fewest) : v.IsArgument fewest := by
  cases v with
  | arr items =>
    rw [arg?_arr, Option.map_eq_some_iff] at h
    obtain ⟨b, hlowered, rfl⟩ := h
    exact .operation _ (hv b hlowered (by simpa [Arg.blocks, Block.listBlocks] using hb))
  | str s => exact .text s
  | bool b => exact .bool b
  | int n => exact .int n
  | float x => exact .float x
  | _ => simp [arg?, lowerArgument] at h

theorem isArgument_of_mapM {args : List Arg} (hv : ∀ v ∈ values, v.Grammatical fewest)
    (h : values.mapM arg? = some args) (hb : ∀ x ∈ Arg.listBlocks args, x.Branched fewest) :
    ∀ v ∈ values, v.IsArgument fewest := by
  intro v hmem
  obtain ⟨a, ha, hva⟩ := exists_mem_of_mapM h hmem
  simp only [Arg.listBlocks_eq, List.forall_mem_flatMap] at hb
  exact isArgument_of_arg? (hv v hmem) hva (hb a ha)

theorem isSequence_of_mapM {members : List Json} {blocks : List Block}
    (hv : ∀ v ∈ members, v.Grammatical fewest) (h : members.mapM block? = some blocks)
    (hb : ∀ x ∈ Block.listBlocks blocks, x.Branched fewest) :
    (Json.arr members).IsSequence fewest := by
  refine .operations members fun v hmem => ?_
  obtain ⟨b, hbm, hvb⟩ := exists_mem_of_mapM h hmem
  simp only [Block.listBlocks_eq, List.forall_mem_flatMap] at hb
  exact hv v hmem b hvb (hb b hbm)

theorem isSequence_of_bodies {contents : List Content}
    (hv : ∀ operations, .arr operations ∈ values → ∀ v ∈ operations, v.Grammatical fewest)
    (h : values.mapM body? = some contents)
    (hb : ∀ x ∈ Content.listBlocks contents, x.Branched fewest) :
    ∀ v ∈ values, v.IsSequence fewest := by
  intro v hmem
  obtain ⟨c, hc, hvc⟩ := exists_mem_of_mapM h hmem
  obtain ⟨operations, blocks, rfl, hm, rfl⟩ := body?_eq_some hvc
  simp only [Content.listBlocks_eq, List.forall_mem_flatMap] at hb
  refine isSequence_of_mapM (hv operations hmem) hm ?_
  simpa [Content.blocks, Content.listBlocks_map_block] using hb _ hc

end

section

/- The values of a call lie two levels below its fields, and the operations of a branch or a path
likewise, so what is known is known of every list that is not larger than the fields. -/
variable {fields : List Json}
  (hbelow : ∀ values : List Json, sizeOf values ≤ sizeOf fields →
    ∀ v ∈ values, v.Grammatical fewest)
include hbelow

theorem grammatical_bodies {values : List Json} (hs : sizeOf values ≤ sizeOf fields) :
    ∀ operations, .arr operations ∈ values → ∀ v ∈ operations, v.Grammatical fewest := by
  intro operations ho
  have hlt := sizeOf_arr_lt ho
  exact hbelow operations (by omega)

theorem grammatical_call :
    (Json.arr (.str Operation.callService.tag :: fields)).Grammatical fewest := by
  intro b h hb
  rw [block?_call (Operation.ofTag?_tag _)] at h
  split at h
  · rename_i call rest
    obtain ⟨values, hv, rfl⟩ := Option.map_eq_some_iff.mp h
    obtain ⟨-, hargs, -⟩ := Block.forall_blocks.mp hb
    rcases callValues?_eq_some_iff.mp hv with ⟨hfalse, -⟩ | ⟨items, hl, hi⟩
    · exact .bareCall call rest hfalse
    · obtain ⟨before, after, he, -⟩ := List.lookup_eq_some_iff.mp hl
      have hmem : ("service_call_values", Json.arr items) ∈ call := by simp [he]
      have hlt := List.sizeOf_lt_of_mem hmem
      have hsmall : sizeOf items ≤ sizeOf (Json.obj call :: rest) := by
        simp at hlt ⊢
        omega
      exact .call call items rest hl (isArgument_of_mapM (hbelow items hsmall) hi hargs)
  · cases h

theorem grammatical_conditional (hf : fewest ≤ 1) :
    (Json.arr (.str Operation.ifElse.tag :: fields)).Grammatical fewest := by
  intro b h hb
  rw [block?_conditional (Operation.ofTag?_tag _)] at h
  rcases fields with _ | ⟨condition, branches⟩
  · cases h
  obtain ⟨hmost, h⟩ := Option.ite_none_left_eq_some.mp h
  obtain ⟨contents, hc, h⟩ := Option.bind_eq_some_iff.mp h
  obtain ⟨arg, ha, rfl⟩ := Option.map_eq_some_iff.mp h
  obtain ⟨hself, hargs, hinside⟩ := Block.forall_blocks.mp hb
  rw [listBlocks_withElse] at hinside
  have hlength : branches.length = contents.length := (mapM_eq_some.mp hc).length_eq
  refine .conditional condition branches ?_ (Nat.not_lt.mp hmost) ?_ ?_
  · rw [hlength, ← withElse_length hf]
    exact hself rfl
  · refine isArgument_of_arg? (hbelow (condition :: branches) le_rfl _ List.mem_cons_self) ha ?_
    simpa [Args.blocks, Arg.listBlocks_eq] using hargs
  · exact isSequence_of_bodies (grammatical_bodies hbelow (by simp)) hc hinside

theorem grammatical_fork :
    (Json.arr (.str Operation.forkExecution.tag :: fields)).Grammatical fewest := by
  intro b h hb
  rw [block?_fork (Operation.ofTag?_tag _)] at h
  split at h
  · exact .emptyFork
  · obtain ⟨args, ha, rfl⟩ := Option.map_eq_some_iff.mp h
    obtain ⟨-, hargs, -⟩ := Block.forall_blocks.mp hb
    exact .pathlessFork _ (isArgument_of_mapM (hbelow _ (by simp; omega)) ha hargs)
  · obtain ⟨contents, hc, h⟩ := Option.bind_eq_some_iff.mp h
    obtain ⟨args, ha, rfl⟩ := Option.map_eq_some_iff.mp h
    obtain ⟨-, hargs, hinside⟩ := Block.forall_blocks.mp hb
    have hpaths := isSequence_of_bodies (grammatical_bodies hbelow (by simp; omega)) hc hinside
    exact .fork _ _ _ (isArgument_of_mapM (hbelow _ (by simp; omega)) ha hargs) hpaths
  · cases h

theorem grammatical_plain {tag : String} (ht : IsPlainTag tag) :
    (Json.arr (.str tag :: fields)).Grammatical fewest := by
  intro b h hb
  rw [block?_plain ht] at h
  obtain ⟨args, ha, rfl⟩ := Option.map_eq_some_iff.mp h
  obtain ⟨-, hargs, -⟩ := Block.forall_blocks.mp hb
  exact .plain tag fields (isPlainTag_iff.mp ht)
    (isArgument_of_mapM (hbelow fields le_rfl) ha hargs)

end

theorem grammatical_monitor (fields : List Json) :
    (Json.arr (.str Operation.waitForMonitor.tag :: fields)).Grammatical fewest := by
  intro b h _
  rw [block?_monitor (Operation.ofTag?_tag _)] at h
  split at h
  · exact .monitor _ _
  · cases h

theorem grammatical (hf : fewest ≤ 1) (v : Json) : v.Grammatical fewest := by
  induction v using (measure (sizeOf (α := Json))).wf.induction with | _ v ih =>
  intro b h
  obtain ⟨tag, fields, rfl⟩ := block?_eq_some h
  have hbelow (values : List Json) (hs : sizeOf values ≤ sizeOf fields) :
      ∀ w ∈ values, w.Grammatical fewest := by
    intro w hw
    have hlt := List.sizeOf_lt_of_mem hw
    refine ih w (show sizeOf w < sizeOf (Json.arr (.str tag :: fields)) from ?_)
    simp only [Json.arr.sizeOf_spec, List.cons.sizeOf_spec]
    omega
  rcases tag_cases tag with ht | ht | ht | ht | ht
  · obtain rfl := Operation.ofTag?_eq_some.mp ht
    exact grammatical_monitor fields b h
  · obtain rfl := Operation.ofTag?_eq_some.mp ht
    exact grammatical_call hbelow b h
  · obtain rfl := Operation.ofTag?_eq_some.mp ht
    exact grammatical_conditional hbelow hf b h
  · obtain rfl := Operation.ofTag?_eq_some.mp ht
    exact grammatical_fork hbelow b h
  · exact grammatical_plain hbelow ht b h

/-! ### Programs -/

theorem isSequence_iff (hf : fewest ≤ 1) (program : Json) : program.IsSequence fewest ↔
    ∃ tree, program.tree? = some tree ∧ ∀ b ∈ tree.blocks, b.Branched fewest := by
  constructor
  · rintro ⟨members, h⟩
    exact exists_mapM_block? fun v hv => (h v hv).lowers hf
  · rintro ⟨tree, ht, hb⟩
    cases program with
    | arr members => exact isSequence_of_mapM (fun v _ => grammatical hf v) ht hb
    | _ => cases ht

theorem type_of_block? {tag : String} {fields : List Json}
    (h : block? (.arr (.str tag :: fields)) = some b) : b.type = tag := by
  rcases tag_cases tag with ht | ht | ht | ht | ht
  · rw [block?_monitor ht] at h
    split at h <;> cases h
    rfl
  · rw [block?_call ht] at h
    split at h
    · obtain ⟨_, _, rfl⟩ := Option.map_eq_some_iff.mp h
      rfl
    · cases h
  · rw [block?_conditional ht] at h
    split at h
    · cases h
    · obtain ⟨_, h⟩ := Option.ite_none_left_eq_some.mp h
      obtain ⟨_, _, h⟩ := Option.bind_eq_some_iff.mp h
      obtain ⟨_, _, rfl⟩ := Option.map_eq_some_iff.mp h
      rfl
  · rw [block?_fork ht] at h
    split at h
    · cases h
      rfl
    · obtain ⟨_, _, rfl⟩ := Option.map_eq_some_iff.mp h
      rfl
    · obtain ⟨_, _, h⟩ := Option.bind_eq_some_iff.mp h
      obtain ⟨_, _, rfl⟩ := Option.map_eq_some_iff.mp h
      rfl
    · cases h
  · rw [block?_plain ht] at h
    obtain ⟨_, _, rfl⟩ := Option.map_eq_some_iff.mp h
    rfl

/-- The block of a conditional has the condition as its argument, and one or two bodies. -/
theorem conditional_of_block? (h : block? v = some b) (ht : b.type = Operation.ifElse.tag) :
    ∃ condition blocks, b.args = .list [condition] ∧ b.contents = bodies blocks ∧
      0 < blocks.length ∧ blocks.length ≤ 2 := by
  obtain ⟨tag, fields, rfl⟩ := block?_eq_some h
  obtain rfl := (type_of_block? h).symm.trans ht
  rw [block?_conditional (Operation.ofTag?_tag _)] at h
  split at h
  · cases h
  · obtain ⟨hmost, h⟩ := Option.ite_none_left_eq_some.mp h
    obtain ⟨contents, hc, h⟩ := Option.bind_eq_some_iff.mp h
    obtain ⟨condition, _, rfl⟩ := Option.map_eq_some_iff.mp h
    have hlength := (mapM_eq_some.mp hc).length_eq
    obtain ⟨blocks, rfl, _⟩ := mapM_body?_eq_some hc
    obtain ⟨blocks', he⟩ := withElse_bodies blocks
    have hkept : blocks'.length = (withElse (bodies blocks)).length := by
      rw [he, bodies, List.length_map]
    refine ⟨condition, blocks', rfl, he, ?_, ?_⟩ <;> rw [hkept]
    · exact (withElse_length (Nat.zero_le 1) _).mpr (Nat.zero_le _)
    · exact withElse_length_le (by omega)

theorem lowers_iff (program : Json) : (∃ tree, program.tree? = some tree) ↔
    program.IsSequence 0 := by
  rw [isSequence_iff (Nat.zero_le 1)]
  refine exists_congr fun tree => ⟨fun h => ⟨h, ?_⟩, And.left⟩
  intro b hb ht
  obtain ⟨v, hv⟩ := exists_source h b hb
  obtain ⟨_, blocks, _, hc, hpos, _⟩ := conditional_of_block? hv ht
  rw [hc, bodies, List.length_map]
  exact hpos

/-- Lowering in a workspace succeeds or fails as it does without one, and notes no errors. -/
theorem lowered_cases {α : Type} (x : Lowering α) (w : Workspace) :
    ∃ v, v.report.errors = w.report.errors ∧
      ((∃ a, x.outcome = .ok a ∧ (Work.lowered x).Runs w a v) ∨
        ∃ e, x.outcome = .error e ∧ (Work.lowered x).Fails w (.lower e) v) := by
  refine ⟨x.trace.foldl (Workspace.warn .lowerer) w, ?_, ?_⟩
  · generalize x.trace = warnings
    induction warnings generalizing w with
    | nil => rfl
    | cons e es ih => exact ih (Workspace.warn .lowerer w e)
  · have hwarned : (modify fun w => x.trace.foldl (Workspace.warn .lowerer) w : Work Unit).Runs w ()
        (x.trace.foldl (Workspace.warn .lowerer) w) := Work.runs_modify.mpr rfl
    cases hx : x.outcome with
    | ok a =>
      refine .inl ⟨a, rfl, Work.runs_bind.mpr ⟨(), _, hwarned, ?_⟩⟩
      rw [hx]
      exact Work.runs_pure.mpr ⟨rfl, rfl⟩
    | error e =>
      refine .inr ⟨e, rfl, hwarned.bind_fails ?_⟩
      rw [hx]
      exact Work.fails_throw _

/-- Lowering succeeds on exactly the programs of the grammar, where conditionals may lack both
branches. On any other value it fails as lowering does, and notes no errors. -/
theorem lowering_accepts_grammar (least : Int) (path : Path) (program : Json) (w : Workspace) :
    ((∃ tree v, (Work.lowered (lowerProgram least path program)).Runs w tree v) ↔
      program.IsSequence 0) ∧
    ((∃ e v, (Work.lowered (lowerProgram least path program)).Fails w (.lower e) v ∧
      v.report.errors = w.report.errors) ↔ ¬ program.IsSequence 0) := by
  rw [← lowers_iff]
  have hresult (tree : Graph) : program.tree? = some tree ↔
      (lowerProgram least path program).outcome = .ok tree := by
    rw [← lowerProgram_result_eq, Traced.result_eq_some]
  simp only [hresult]
  obtain ⟨v, hkept, ⟨tree, ht, hr⟩ | ⟨e, he, hfail⟩⟩ :=
    lowered_cases (lowerProgram least path program) w
  · constructor
    · exact iff_of_true ⟨tree, v, hr⟩ ⟨tree, ht⟩
    · refine iff_of_false ?_ (not_not_intro ⟨tree, ht⟩)
      rintro ⟨e, u, hf, _⟩
      exact hr.not_fails hf
  · have hnone : ¬ ∃ tree, (lowerProgram least path program).outcome = .ok tree := by
      rintro ⟨tree, ht⟩
      rw [he] at ht
      cases ht
    constructor
    · refine iff_of_false ?_ hnone
      rintro ⟨tree, u, hr⟩
      exact hr.not_fails hfail
    · exact iff_of_true ⟨e, v, hfail, hkept⟩ hnone

end BlockFlow
