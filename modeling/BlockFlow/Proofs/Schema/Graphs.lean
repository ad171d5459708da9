import Mathlib
import BlockFlow.Proofs.Graph.RoundTrip
import BlockFlow.Proofs.Schema.Keywords
import BlockFlow.Schema.Loading

/-! Which graphs the schema accepts. -/

namespace BlockFlow

open FlowGraphSchema

/-- Arguments that the schema has a place for. A descriptor with the values of a service call must
be a service call in full. -/
def Args.Representable : Args → Prop
  | .monitor descriptor =>
    ∀ values, descriptor.lookup "service_call_values" = some values →
      (descriptor.lookup "service_id").isSome = true ∧
        (descriptor.lookup "service_action").isSome = true ∧
          values.Fits definitions (arrayOf "CompiledArg")
  | _ => True

/-- A block that the schema has a place for. -/
structure Block.Representable (b : Block) : Prop where
  id : b.id = .null ∨ ∃ text, text ≠ "" ∧ b.id = .str text
  type : b.type ≠ ""
  args : b.args.Representable

namespace FlowGraphSchema

/-- The schema of the arguments of a block. -/
def blockArgs : Schema := [.oneOf [arrayOf "CompiledArg", callServiceArgs, monitorArgs]]

@[simp] theorem lookup_compiledBlock :
    definitions.lookup "CompiledBlock" = some compiledBlock := rfl

@[simp] theorem lookup_compiledArg : definitions.lookup "CompiledArg" = some compiledArg := rfl

@[simp] theorem lookup_content : definitions.lookup "Content" = some content := rfl

variable {v : Json}

theorem fits_arrayOf {items : List Json} {name : String} :
    (Json.arr items).Fits definitions (arrayOf name) ↔
      ∀ item ∈ items, item.Fits definitions ((definitions.lookup name).getD []) := by
  simp [arrayOf, JsonType.holds]

theorem fits_nonEmptyText :
    v.Fits definitions nonEmptyText ↔ ∃ text, text ≠ "" ∧ v = .str text := by
  cases v with
  | str text =>
    have hl : 1 ≤ text.length ↔ text ≠ "" := by
      rw [Nat.one_le_iff_ne_zero, ne_eq, String.length_eq_zero_iff]
    simp [nonEmptyText, JsonType.holds, hl]
  | _ => simp [nonEmptyText, JsonType.holds]

theorem fits_compiledBlock {id : Json} {type : String} {args contents : Json} :
    (Json.obj (blockFields id type args contents)).Fits definitions compiledBlock ↔
      (id = .null ∨ ∃ text, text ≠ "" ∧ id = .str text) ∧ type ≠ "" ∧
        args.Fits definitions blockArgs ∧ contents.Fits definitions (arrayOf "Content") := by
  have hid : (∀ value, (blockFields id type args contents).lookup "id" = some value →
      value.Fits definitions nonEmptyText) ↔ id = .null ∨ ∃ text, text ≠ "" ∧ id = .str text := by
    simp only [lookup_id_blockFields, fits_nonEmptyText]
    constructor
    · intro h
      by_cases hn : id = .null
      · exact .inl hn
      · exact .inr (h id ⟨rfl, hn⟩)
    · rintro (rfl | ht) value ⟨rfl, hn⟩
      · exact (hn rfl).elim
      · exact ht
  have htype : (Json.str type).Fits definitions nonEmptyText ↔ type ≠ "" := by
    simp [fits_nonEmptyText]
  simp only [compiledBlock, blockArgs, Json.fits_cons, Json.fits_nil, Json.meets_type,
    Json.meets_required, Json.meets_properties, List.forall_mem_cons, List.not_mem_nil,
    false_imp_iff, implies_true, and_true, hid, lookup_type_blockFields, lookup_args_blockFields,
    lookup_contents_blockFields, Option.some.injEq, forall_eq', htype, JsonType.holds,
    Option.isSome_some, true_and]

/-- What has a type is no body. -/
theorem not_fits_contentBlock {fields : List (String × Json)} {type : Json}
    (h : fields.lookup "type" = some type) :
    ¬ (Json.obj fields).Fits definitions contentBlock := by
  simp only [contentBlock, Json.fits_cons, Json.meets_not, Json.meets_required,
    List.forall_mem_singleton, h, Option.isSome_some, Json.fits_nil, and_true, not_true_eq_false,
    false_and, and_false, not_false_eq_true]

theorem fits_content_block {fields : List (String × Json)} {type : Json}
    (h : fields.lookup "type" = some type) :
    (Json.obj fields).Fits definitions content ↔
      (Json.obj fields).Fits definitions compiledBlock := by
  rw [content, Json.fits_singleton, Json.meets_oneOf_head]
  intro t ht
  rw [List.mem_singleton.mp ht]
  exact not_fits_contentBlock h

theorem fits_content_group {contents : Json} :
    (Json.obj [("contents", contents)]).Fits definitions content ↔
      contents.Fits definitions (arrayOf "Content") := by
  have hblock : ¬ (Json.obj [("contents", contents)]).Fits definitions compiledBlock := by
    simp [compiledBlock, List.lookup]
  rw [content, Json.fits_singleton, Json.meets_oneOf_tail hblock, Json.meets_oneOf_head (by simp)]
  simp [contentBlock, List.lookup, JsonType.holds]

theorem fits_compiledArg_constant (value : String) :
    (Arg.constant value).toJson.Fits definitions compiledArg := by
  have hblock : ¬ (Arg.constant value).toJson.Fits definitions blockArg := by
    simp [Arg.toJson, blockArg, List.lookup]
  rw [compiledArg, Json.fits_singleton, Json.meets_oneOf_head (by simpa using hblock)]
  simp [Arg.toJson, constantArg, List.lookup, JsonType.holds]

theorem fits_compiledArg_block {blocks : List Json} :
    (Json.obj [("type", .str "block"), ("value", .arr blocks)]).Fits definitions compiledArg ↔
      ∀ b ∈ blocks, b.Fits definitions compiledBlock := by
  have hconstant : ¬ (Json.obj [("type", .str "block"), ("value", .arr blocks)]).Fits definitions
      constantArg := by
    simp [constantArg, List.lookup]
  rw [compiledArg, Json.fits_singleton, Json.meets_oneOf_tail hconstant,
    Json.meets_oneOf_head (by simp)]
  simp [blockArg, List.lookup, JsonType.holds, fits_arrayOf]

/-! ### The arguments of a block -/

theorem not_fits_arrayOf {fields : List (String × Json)} {name : String} :
    ¬ (Json.obj fields).Fits definitions (arrayOf name) := by
  simp [arrayOf, JsonType.holds]

theorem fits_blockArgs_list {items : List Json} :
    (Json.arr items).Fits definitions blockArgs ↔
      ∀ item ∈ items, item.Fits definitions compiledArg := by
  have hobject : ∀ s ∈ [callServiceArgs, monitorArgs], ¬ (Json.arr items).Fits definitions s := by
    simp [callServiceArgs, monitorArgs, JsonType.holds]
  rw [blockArgs, Json.fits_singleton, Json.meets_oneOf_head hobject,
    fits_arrayOf, lookup_compiledArg, Option.getD_some]

section

variable {fields : List (String × Json)}

theorem fits_monitorArgs :
    (Json.obj fields).Fits definitions monitorArgs ↔
      fields.lookup "service_call_values" = none := by
  simp only [monitorArgs, Json.fits_cons, Json.fits_nil, and_true, Json.meets_type,
    JsonType.holds, Json.meets_not, Json.meets_required, List.forall_mem_singleton, true_and,
    Bool.not_eq_true, Option.isSome_eq_false_iff, Option.isNone_iff_eq_none]

theorem fits_callServiceArgs :
    (Json.obj fields).Fits definitions callServiceArgs ↔
      ((fields.lookup "service_id").isSome = true ∧
        (fields.lookup "service_action").isSome = true ∧
          (fields.lookup "service_call_values").isSome = true) ∧
        ∀ values, fields.lookup "service_call_values" = some values →
          values.Fits definitions (arrayOf "CompiledArg") := by
  simp only [callServiceArgs, Json.fits_cons, Json.fits_nil, and_true, Json.meets_type,
    JsonType.holds, Json.meets_required, Json.meets_properties, List.forall_mem_cons,
    List.not_mem_nil, false_imp_iff, implies_true, true_and]

/-- An object without the values of a service call fits as a descriptor, and one with them as a
service call. -/
theorem fits_blockArgs_object :
    (Json.obj fields).Fits definitions blockArgs ↔ (Args.monitor fields).Representable := by
  rw [blockArgs, Json.fits_singleton, Json.meets_oneOf_tail not_fits_arrayOf, Args.Representable]
  cases hv : fields.lookup "service_call_values" with
  | none =>
    have hcall : ¬ (Json.obj fields).Fits definitions callServiceArgs := by
      simp only [fits_callServiceArgs, hv, Option.isSome_none, Bool.false_eq_true, and_false,
        false_and, not_false_eq_true]
    have hmonitor := fits_monitorArgs.mpr hv
    rw [Json.meets_oneOf_tail hcall, Json.meets_oneOf_head (by simp)]
    simp [hmonitor]
  | some values =>
    have hmonitor : ¬ (Json.obj fields).Fits definitions monitorArgs := by
      simp [fits_monitorArgs, hv]
    rw [Json.meets_oneOf_head (by simpa using hmonitor), fits_callServiceArgs, hv]
    simp [and_assoc]

end

end FlowGraphSchema

/-! ### Graphs -/

mutual

theorem Block.fits_iff : ∀ b : Block,
    b.toJson.Fits definitions compiledBlock ↔ ∀ x ∈ b.blocks, x.Representable
  | .mk id type args contents => by
    have hself : (Block.mk id type args contents).Representable ↔
        (id = .null ∨ ∃ text, text ≠ "" ∧ id = .str text) ∧ type ≠ "" ∧ args.Representable :=
      ⟨fun h => ⟨h.id, h.type, h.args⟩, fun h => ⟨h.1, h.2.1, h.2.2⟩⟩
    rw [Block.toJson_eq, fits_compiledBlock, Args.fits_iff args, Content.list_fits_iff contents,
      Block.forall_blocks, hself]
    tauto

theorem Args.fits_iff : ∀ args : Args,
    args.toJson.Fits definitions blockArgs ↔
      args.Representable ∧ ∀ x ∈ args.blocks, x.Representable
  | .list args => by
    rw [Args.toJson, fits_blockArgs_list, Arg.list_fits_iff args]
    exact (and_iff_right trivial).symm
  | .monitor descriptor => by
    rw [Args.toJson, fits_blockArgs_object]
    simp [Args.blocks]
  | .call serviceId serviceAction values => by
    rw [Args.toJson, fits_blockArgs_object, Args.blocks, ← Arg.list_fits_iff values]
    simp [Args.Representable, List.lookup, fits_arrayOf]

theorem Arg.list_fits_iff : ∀ args : List Arg,
    (∀ item ∈ Arg.listToJson args, item.Fits definitions compiledArg) ↔
      ∀ x ∈ Arg.listBlocks args, x.Representable
  | [] => by simp [Arg.listToJson, Arg.listBlocks]
  | .constant value :: rest => by
    rw [Arg.listToJson, List.forall_mem_cons, Arg.list_fits_iff rest, Arg.listBlocks]
    exact and_iff_right (fits_compiledArg_constant value)
  | .block value :: rest => by
    rw [Arg.listToJson, List.forall_mem_cons, Arg.list_fits_iff rest, Arg.listBlocks,
      List.forall_mem_append, Arg.toJson, fits_compiledArg_block, Block.list_fits_iff value]

theorem Content.list_fits_iff : ∀ contents : List Content,
    (Json.arr (Content.listToJson contents)).Fits definitions (arrayOf "Content") ↔
      ∀ x ∈ Content.listBlocks contents, x.Representable
  | [] => by simp [Content.listToJson, Content.listBlocks, fits_arrayOf]
  | .block b :: rest => by
    have hb : b.toJson.Fits definitions content ↔ ∀ x ∈ b.blocks, x.Representable := by
      rw [← Block.fits_iff b]
      rcases b with ⟨id, type, args, contents⟩
      rw [Block.toJson_eq, fits_content_block (lookup_type_blockFields _ _ _ _)]
    have hrest := Content.list_fits_iff rest
    rw [fits_arrayOf, lookup_content, Option.getD_some] at hrest ⊢
    rw [Content.listToJson, List.forall_mem_cons, hrest, Content.listBlocks,
      List.forall_mem_append, Content.toJson, hb]
  | .group contents :: rest => by
    have hrest := Content.list_fits_iff rest
    have hgroup := Content.list_fits_iff contents
    rw [fits_arrayOf, lookup_content, Option.getD_some] at hrest ⊢
    rw [Content.listToJson, List.forall_mem_cons, hrest, Content.listBlocks,
      List.forall_mem_append, Content.toJson, fits_content_group, hgroup]

theorem Block.list_fits_iff : ∀ blocks : List Block,
    (∀ item ∈ Block.listToJson blocks, item.Fits definitions compiledBlock) ↔
      ∀ x ∈ Block.listBlocks blocks, x.Representable
  | [] => by simp [Block.listToJson, Block.listBlocks]
  | b :: rest => by
    rw [Block.listToJson, List.forall_mem_cons, Block.fits_iff b, Block.list_fits_iff rest,
      Block.listBlocks, List.forall_mem_append]

end

theorem flowGraph_issues_iff (v : Json) :
    LoadedSchema.flowGraph.issues v = .ok [] ↔ v.Fits definitions (arrayOf "CompiledBlock") := by
  have htrue : LoadedSchema.flowGraph.source.truthy = true := rfl
  have hdocument : LoadedSchema.flowGraph.document.violations v =
      (v.judge definitions).against (arrayOf "CompiledBlock") := rfl
  rw [LoadedSchema.issues, if_pos htrue, SchemaDocument.issues, hdocument, Json.Fits]
  cases (v.judge definitions).against (arrayOf "CompiledBlock") with
  | nil => simp
  | cons violation rest => cases violation; simp [Violation.issues]

/-- The schema accepts a graph exactly if it has a place for each of its blocks. -/
theorem Graph.schema_issues_iff (g : Graph) :
    LoadedSchema.flowGraph.issues g.toJson = .ok [] ↔ ∀ b ∈ g.blocks, b.Representable := by
  rw [flowGraph_issues_iff, Graph.toJson, fits_arrayOf, lookup_compiledBlock, Option.getD_some]
  exact Block.list_fits_iff g

end BlockFlow
