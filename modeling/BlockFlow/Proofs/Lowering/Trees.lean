import Mathlib
import BlockFlow.Proofs.Graph.Blocks
import BlockFlow.Proofs.Lowering.Results

/-! The trees that lowering gives. Every block of a tree comes from an operation of its own, and its
type settles the form of its arguments and contents. -/

namespace BlockFlow

open Json Lowering

variable {tag : String}

theorem mapM_eq_some {α β : Type} {f : α → Option β} {xs : List α} {ys : List β} :
    xs.mapM f = some ys ↔ List.Forall₂ (fun x y => f x = some y) xs ys := by
  induction xs generalizing ys with
  | nil => simp [eq_comm]
  | cons x xs ih =>
    rw [List.mapM_cons]
    cases hx : f x with
    | none => simp [List.forall₂_cons_left_iff, hx]
    | some y => cases hm : xs.mapM f <;> cases ys <;> simp [← ih, hx, hm]

theorem exists_of_mem_mapM {α β : Type} {f : α → Option β} {xs : List α} {ys : List β} {y : β}
    (h : xs.mapM f = some ys) (hy : y ∈ ys) : ∃ x ∈ xs, f x = some y := by
  rw [mapM_eq_some] at h
  induction h with
  | nil => cases hy
  | cons hx _ ih =>
    rcases List.mem_cons.mp hy with rfl | hy
    · exact ⟨_, List.mem_cons_self, hx⟩
    · obtain ⟨x, hm, hf⟩ := ih hy
      exact ⟨x, List.mem_cons_of_mem _ hm, hf⟩

/-- A literal argument becomes a constant, and any other a single block. -/
theorem arg?_eq_some {v : Json} {arg : Arg} (h : arg? v = some arg) :
    (∃ text, arg = .constant text) ∨ ∃ b, block? v = some b ∧ arg = .block [b] := by
  cases v with
  | arr items =>
    rw [arg?_arr, Option.map_eq_some_iff] at h
    obtain ⟨b, hb, rfl⟩ := h
    exact .inr ⟨b, hb, rfl⟩
  | null => simp [arg?, lowerArgument] at h
  | obj fields => simp [arg?, lowerArgument] at h
  | _ =>
    simp only [arg?, lowerArgument, Traced.result_pure, Option.some.injEq] at h
    exact .inl ⟨_, h.symm⟩

theorem body?_eq_some {v : Json} {body : Content} (h : body? v = some body) :
    ∃ operations blocks, v = .arr operations ∧ operations.mapM block? = some blocks ∧
      body = .group (blocks.map .block) := by
  cases v with
  | arr operations =>
    simp only [body?, Option.map_eq_some_iff] at h
    obtain ⟨blocks, hb, rfl⟩ := h
    exact ⟨operations, blocks, rfl, hb, rfl⟩
  | _ => simp [body?] at h

/-- The values of a call are those of one of its fields, if there are any. -/
theorem callValues?_eq_some {call : List (String × Json)} {values : List Arg}
    (h : callValues? call = some values) :
    values = [] ∨ ∃ name items, (name, .arr items) ∈ call ∧ items.mapM arg? = some values := by
  induction call with
  | nil => exact .inl (Option.some.inj h).symm
  | cons field rest ih =>
    obtain ⟨name, v⟩ := field
    rw [callValues?_cons] at h
    split at h
    · split at h
      · exact .inr ⟨name, _, List.mem_cons_self, h⟩
      · split at h
        · cases h
        · exact .inl (Option.some.inj h).symm
    · rcases ih h with hv | ⟨o, items, ho, hi⟩
      · exact .inl hv
      · exact .inr ⟨o, items, List.mem_cons_of_mem _ ho, hi⟩

/-- Bodies of branches or paths. -/
def bodies (blocks : List (List Block)) : List Content :=
  blocks.map fun body => .group (body.map .block)

theorem mapM_body?_eq_some {values : List Json} {contents : List Content}
    (h : values.mapM body? = some contents) :
    ∃ blocks, contents = bodies blocks ∧
      List.Forall₂ (fun v body => ∃ operations, v = .arr operations ∧
        operations.mapM block? = some body) values blocks := by
  rw [mapM_eq_some] at h
  induction h with
  | nil => exact ⟨[], rfl, .nil⟩
  | cons hv _ ih =>
    obtain ⟨blocks, rfl, hf⟩ := ih
    obtain ⟨operations, body, rfl, hb, rfl⟩ := body?_eq_some hv
    exact ⟨body :: blocks, rfl, .cons ⟨operations, rfl, hb⟩ hf⟩

/-- What lowering makes of an operation: the type is its tag, and settles the form. -/
inductive Shape : String → Args → List Content → Prop
  | monitor (descriptor : List (String × Json)) :
    Shape Operation.waitForMonitor.tag (.monitor descriptor) []
  | call (serviceId serviceAction : Json) (values : List Arg) :
    Shape Operation.callService.tag (.call serviceId serviceAction values) []
  | conditional (condition : Arg) (branches : List (List Block)) :
    Shape Operation.ifElse.tag (.list [condition]) (bodies branches)
  | fork (args : List Arg) (paths : List (List Block)) :
    Shape Operation.forkExecution.tag (.list args) (bodies paths)
  | plain {type : String} (h : IsPlainTag type) (args : List Arg) : Shape type (.list args) []

/-- A block as lowering leaves it. -/
structure Block.Lowered (b : Block) : Prop where
  noId : b.id = .null
  shape : Shape b.type b.args b.contents
  single : ∀ value, Arg.block value ∈ b.args.listed → ∃ x, value = [x]

theorem Block.Lowered.fork_contents {b : Block} (h : b.Lowered)
    (hf : b.type = Operation.forkExecution.tag) : ∃ paths, b.contents = bodies paths := by
  have hs := h.shape
  rw [hf] at hs
  generalize hc : b.contents = contents at hs ⊢
  generalize ha : b.args = args at hs
  generalize ht : Operation.forkExecution.tag = type at hs
  cases hs with
  | fork args paths => exact ⟨paths, rfl⟩
  | plain hp args => exact (hp.2.2.2 (ht ▸ Operation.ofTag?_tag _)).elim
  | _ => simp [Operation.tag] at ht

theorem Block.Lowered.fork_args {b : Block} (h : b.Lowered)
    (hf : b.type = Operation.forkExecution.tag) : ∃ args, b.args = .list args := by
  have hs := h.shape
  generalize b.contents = contents at hs
  generalize b.args = args at hs ⊢
  generalize b.type = type at hs hf
  cases hs with
  | monitor descriptor => simp [Operation.tag] at hf
  | call serviceId serviceAction values => simp [Operation.tag] at hf
  | _ => exact ⟨_, rfl⟩

/-- Only conditionals and forks have bodies. -/
theorem Block.Lowered.contents_eq_nil {b : Block} (h : b.Lowered)
    (hc : b.type ≠ Operation.ifElse.tag) (hf : b.type ≠ Operation.forkExecution.tag) :
    b.contents = [] := by
  have hs := h.shape
  generalize b.contents = contents at hs ⊢
  generalize b.args = args at hs
  generalize b.type = type at hs hc hf
  cases hs <;> first | rfl | contradiction

/-- The contents of a block are bodies. -/
theorem Block.Lowered.groups {b : Block} (h : b.Lowered) :
    ∀ c ∈ b.contents, ∃ blocks : List Block, c = .group (blocks.map .block) := by
  have hs := h.shape
  generalize b.contents = contents at hs ⊢
  generalize b.args = args at hs
  generalize b.type = type at hs
  cases hs with
  | conditional _ branches => exact List.forall_mem_map.mpr fun body _ => ⟨body, rfl⟩
  | fork _ paths => exact List.forall_mem_map.mpr fun body _ => ⟨body, rfl⟩
  | _ => simp

theorem Block.Lowered.monitor_args {b : Block} (h : b.Lowered)
    (ht : b.type = Operation.waitForMonitor.tag) : ∃ descriptor, b.args = .monitor descriptor := by
  have hs := h.shape
  generalize b.contents = contents at hs
  generalize b.args = args at hs ⊢
  generalize b.type = type at hs ht
  cases hs with
  | monitor descriptor => exact ⟨descriptor, rfl⟩
  | plain hp args => exact (hp.1 (ht ▸ Operation.ofTag?_tag _)).elim
  | _ => simp [Operation.tag] at ht

theorem Block.Lowered.call_args {b : Block} (h : b.Lowered)
    (ht : b.type = Operation.callService.tag) :
    ∃ serviceId serviceAction values, b.args = .call serviceId serviceAction values := by
  have hs := h.shape
  generalize b.contents = contents at hs
  generalize b.args = args at hs ⊢
  generalize b.type = type at hs ht
  cases hs with
  | call serviceId serviceAction values => exact ⟨_, _, _, rfl⟩
  | plain hp args => exact (hp.2.1 (ht ▸ Operation.ofTag?_tag _)).elim
  | _ => simp [Operation.tag] at ht

theorem Block.Lowered.not_call_args {b : Block} (h : b.Lowered)
    (ht : b.type ≠ Operation.callService.tag) (serviceId serviceAction : Json)
    (values : List Arg) : b.args ≠ .call serviceId serviceAction values := by
  have hs := h.shape
  intro he
  rw [he] at hs
  generalize b.contents = contents at hs
  generalize b.type = type at hs ht
  cases hs
  contradiction

theorem withElse_bodies (blocks : List (List Block)) :
    ∃ blocks', withElse (bodies blocks) = bodies blocks' := by
  unfold withElse
  split
  · exact ⟨blocks ++ [[]], by simp [bodies]⟩
  · exact ⟨blocks, rfl⟩

theorem single_of_mapM {values : List Json} {args : List Arg} (h : values.mapM arg? = some args) :
    ∀ value, Arg.block value ∈ args → ∃ x, value = [x] := by
  intro value hv
  obtain ⟨v, _, hv⟩ := exists_of_mem_mapM h hv
  rcases arg?_eq_some hv with ⟨text, ht⟩ | ⟨b, _, hb⟩
  · cases ht
  · cases hb
    exact ⟨b, rfl⟩

theorem lowered_of_block? {v : Json} {b : Block} (h : block? v = some b) : b.Lowered := by
  obtain ⟨tag, fields, rfl⟩ := block?_eq_some h
  rcases tag_cases tag with ht | ht | ht | ht | ht
  · rw [block?_monitor ht] at h
    obtain rfl := Operation.ofTag?_eq_some.mp ht
    split at h
    · cases h
      exact ⟨rfl, .monitor _, by simp [Block.args, Args.listed]⟩
    · cases h
  · rw [block?_call ht] at h
    obtain rfl := Operation.ofTag?_eq_some.mp ht
    split at h
    · obtain ⟨values, hv, rfl⟩ := Option.map_eq_some_iff.mp h
      refine ⟨rfl, .call _ _ _, ?_⟩
      rcases callValues?_eq_some hv with rfl | ⟨name, items, _, hi⟩
      · simp [Block.args, Args.listed]
      · exact single_of_mapM hi
    · cases h
  · rw [block?_conditional ht] at h
    obtain rfl := Operation.ofTag?_eq_some.mp ht
    rcases fields with _ | ⟨condition, branches⟩
    · cases h
    simp only [Option.ite_none_left_eq_some] at h
    obtain ⟨contents, hc, h⟩ := Option.bind_eq_some_iff.mp h.2
    obtain ⟨arg, ha, rfl⟩ := Option.map_eq_some_iff.mp h
    obtain ⟨blocks, rfl, _⟩ := mapM_body?_eq_some hc
    obtain ⟨blocks', hb⟩ := withElse_bodies blocks
    refine ⟨rfl, ?_, ?_⟩
    · simp only [Block.type, Block.args, Block.contents, hb]
      exact .conditional arg blocks'
    · exact single_of_mapM (by simp [ha] : [condition].mapM arg? = some [arg])
  · rw [block?_fork ht] at h
    obtain rfl := Operation.ofTag?_eq_some.mp ht
    split at h
    · cases h
      exact ⟨rfl, .fork [] [], by simp [Block.args, Args.listed]⟩
    · obtain ⟨args, ha, rfl⟩ := Option.map_eq_some_iff.mp h
      exact ⟨rfl, .fork args [], single_of_mapM ha⟩
    · obtain ⟨contents, hc, h⟩ := Option.bind_eq_some_iff.mp h
      obtain ⟨args, ha, rfl⟩ := Option.map_eq_some_iff.mp h
      obtain ⟨blocks, rfl, _⟩ := mapM_body?_eq_some hc
      exact ⟨rfl, .fork args blocks, single_of_mapM ha⟩
    · cases h
  · rw [block?_plain ht] at h
    obtain ⟨args, ha, rfl⟩ := Option.map_eq_some_iff.mp h
    exact ⟨rfl, .plain ht args, single_of_mapM ha⟩

theorem listBlocks_withElse (branches : List Content) :
    Content.listBlocks (withElse branches) = Content.listBlocks branches := by
  unfold withElse
  split
  · simp [Content.listBlocks]
  · rfl

/-- Every block inside the block of an operation is that of an operation. -/
def Sourced (v : Json) : Prop := ∀ b, block? v = some b → ∀ x ∈ b.blocks, ∃ w, block? w = some x

theorem sourced_args {values : List Json} {args : List Arg} (hs : ∀ v ∈ values, Sourced v)
    (h : values.mapM arg? = some args) : ∀ x ∈ Arg.listBlocks args, ∃ w, block? w = some x := by
  intro x hx
  obtain ⟨value, ha, hx⟩ := Arg.mem_listBlocks.mp hx
  obtain ⟨v, hv, ha⟩ := exists_of_mem_mapM h ha
  rcases arg?_eq_some ha with ⟨text, ht⟩ | ⟨b, hb, he⟩
  · cases ht
  · cases he
    exact hs v hv b hb x (by simpa [Block.listBlocks] using hx)

theorem sourced_bodies {values : List Json} {contents : List Content}
    (hs : ∀ operations, .arr operations ∈ values → ∀ v ∈ operations, Sourced v)
    (h : values.mapM body? = some contents) :
    ∀ x ∈ Content.listBlocks contents, ∃ w, block? w = some x := by
  intro x hx
  obtain ⟨c, hc, hx⟩ := Content.mem_listBlocks.mp hx
  obtain ⟨v, hv, hb⟩ := exists_of_mem_mapM h hc
  obtain ⟨operations, blocks, rfl, hm, rfl⟩ := body?_eq_some hb
  simp only [Content.blocks, Content.listBlocks_map_block, Block.mem_listBlocks] at hx
  obtain ⟨b, hb, hx⟩ := hx
  obtain ⟨w, hw, hb⟩ := exists_of_mem_mapM hm hb
  exact hs operations hv w hw b hb x hx

theorem sourced (v : Json) : Sourced v := by
  induction v using (measure (sizeOf (α := Json))).wf.induction with | _ v ih =>
  intro b h
  obtain ⟨tag, fields, rfl⟩ := block?_eq_some h
  have hself := h
  have inside (values : List Json) (hs : sizeOf values ≤ sizeOf fields) :
      ∀ w ∈ values, Sourced w := by
    intro w hw
    have hlt := List.sizeOf_lt_of_mem hw
    refine ih w (show sizeOf w < sizeOf (Json.arr (.str tag :: fields)) from ?_)
    simp only [Json.arr.sizeOf_spec, List.cons.sizeOf_spec]
    omega
  have insideBodies (values : List Json) (hs : sizeOf values ≤ sizeOf fields) :
      ∀ operations, .arr operations ∈ values → ∀ w ∈ operations, Sourced w := by
    intro operations ho
    have := List.sizeOf_lt_of_mem ho
    exact inside operations (by simp at this; omega)
  rcases tag_cases tag with ht | ht | ht | ht | ht
  · rw [block?_monitor ht] at h
    split at h
    · cases h
      exact Block.forall_blocks.mpr
        ⟨⟨_, hself⟩, by simp [Args.blocks], by simp [Content.listBlocks]⟩
    · cases h
  · rw [block?_call ht] at h
    split at h
    · rename_i call rest
      obtain ⟨values, hv, rfl⟩ := Option.map_eq_some_iff.mp h
      refine Block.forall_blocks.mpr ⟨⟨_, hself⟩, ?_, by simp [Content.listBlocks]⟩
      rcases callValues?_eq_some hv with rfl | ⟨name, items, hm, hi⟩
      · simp [Args.blocks, Arg.listBlocks]
      · have := List.sizeOf_lt_of_mem hm
        exact sourced_args (inside items (by simp at this ⊢; omega)) hi
    · cases h
  · rw [block?_conditional ht] at h
    rcases fields with _ | ⟨condition, branches⟩
    · cases h
    simp only [Option.ite_none_left_eq_some] at h
    obtain ⟨contents, hc, h⟩ := Option.bind_eq_some_iff.mp h.2
    obtain ⟨arg, ha, rfl⟩ := Option.map_eq_some_iff.mp h
    have hb := sourced_bodies (insideBodies branches (by simp)) hc
    refine Block.forall_blocks.mpr ⟨⟨_, hself⟩, ?_, ?_⟩
    · have hm : [condition].mapM arg? = some [arg] := by simp [ha]
      exact sourced_args (fun w hw => inside (condition :: branches) le_rfl w (by simp_all)) hm
    · rw [listBlocks_withElse]
      exact hb
  · rw [block?_fork ht] at h
    split at h
    · cases h
      exact Block.forall_blocks.mpr ⟨⟨_, hself⟩, by simp [Args.blocks, Arg.listBlocks],
        by simp [Content.listBlocks]⟩
    · obtain ⟨args, ha, rfl⟩ := Option.map_eq_some_iff.mp h
      exact Block.forall_blocks.mpr ⟨⟨_, hself⟩, sourced_args (inside _ (by simp; omega)) ha,
        by simp [Content.listBlocks]⟩
    · obtain ⟨contents, hc, h⟩ := Option.bind_eq_some_iff.mp h
      obtain ⟨args, ha, rfl⟩ := Option.map_eq_some_iff.mp h
      exact Block.forall_blocks.mpr ⟨⟨_, hself⟩, sourced_args (inside _ (by simp; omega)) ha,
        sourced_bodies (insideBodies _ (by simp; omega)) hc⟩
    · cases h
  · rw [block?_plain ht] at h
    obtain ⟨args, ha, rfl⟩ := Option.map_eq_some_iff.mp h
    exact Block.forall_blocks.mpr ⟨⟨_, hself⟩, sourced_args (inside fields le_rfl) ha,
      by simp [Content.listBlocks]⟩

theorem exists_source {program : Json} {t : Graph} (h : program.tree? = some t) :
    ∀ b ∈ t.blocks, ∃ v, block? v = some b := by
  intro b hb
  cases program with
  | arr operations =>
    obtain ⟨root, hroot, hb⟩ := Block.mem_listBlocks.mp hb
    obtain ⟨v, _, hv⟩ := exists_of_mem_mapM h hroot
    exact sourced v root hv b hb
  | _ => cases h

/-- Every block of the tree of a program is as lowering leaves it. -/
def Graph.IsTree (t : Graph) : Prop := ∀ b ∈ t.blocks, b.Lowered

theorem isTree_of_tree? {program : Json} {t : Graph} (h : program.tree? = some t) : t.IsTree := by
  intro x hx
  obtain ⟨v, hv⟩ := exists_source h x hx
  exact lowered_of_block? hv

theorem isTree_of_lowerProgram {least : Int} {path : Path} {program : Json} {t : Graph}
    (h : (lowerProgram least path program).outcome = .ok t) : t.IsTree :=
  isTree_of_tree? (lowerProgram_eq_ok.mp h)

end BlockFlow
