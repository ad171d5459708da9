import Mathlib
import BlockFlow.Graph.Parser
import BlockFlow.Graph.Printer
import BlockFlow.Proofs.Graph.Blocks

/-! When a graph can be read back from its JSON form. -/

namespace BlockFlow

theorem bind_eq_ok {ε α β : Type} {x : Except ε α} {f : α → Except ε β} {b : β} :
    x >>= f = .ok b ↔ ∃ a, x = .ok a ∧ f a = .ok b := by
  cases x with
  | error e => simp [bind, Except.bind]
  | ok a => simp [bind, Except.bind]

theorem map_eq_ok {ε α β : Type} {x : Except ε α} {f : α → β} {b : β} :
    f <$> x = .ok b ↔ ∃ a, x = .ok a ∧ f a = b := by
  cases x with
  | error e => simp [Functor.map, Except.map]
  | ok a => simp [Functor.map, Except.map]

/-- The blocks of a sequence, also those in bodies. -/
def Content.members : List Content → List Block
  | [] => []
  | .block b :: rest => b :: Content.members rest
  | .group contents :: rest => Content.members contents ++ Content.members rest

/-- Arguments that are read in the way they are written. Only a service call is read as one. -/
def Args.ReadsBack (type : String) : Args → Prop
  | .list _ => True
  | .monitor _ => type ≠ Operation.callService.tag
  | .call _ _ _ => type = Operation.callService.tag

/-- A block that nothing keeps from being read back: a block without a type would be taken for a
body in a sequence. -/
structure Block.ReadsBack (b : Block) : Prop where
  args : b.args.ReadsBack b.type
  typed : ∀ x ∈ Content.members b.contents, x.type ≠ ""

/-! ### The fields of a block -/

section

variable (id : Json) (type : String) (args contents : Json)

/-- The fields of a block in its JSON form. -/
def blockFields : List (String × Json) :=
  idFields id ++ [("type", .str type), ("args", args), ("contents", contents)]

theorem Block.toJson_eq (args : Args) (contents : List Content) :
    (Block.mk id type args contents).toJson =
      .obj (blockFields id type args.toJson (.arr (Content.listToJson contents))) := by
  rw [Block.toJson, blockFields]

theorem lookup_type_blockFields :
    (blockFields id type args contents).lookup "type" = some (.str type) := by
  cases id <;> rfl

theorem lookup_args_blockFields :
    (blockFields id type args contents).lookup "args" = some args := by
  cases id <;> rfl

theorem lookup_contents_blockFields :
    (blockFields id type args contents).lookup "contents" = some contents := by
  cases id <;> rfl

theorem lookup_id_blockFields {value : Json} :
    (blockFields id type args contents).lookup "id" = some value ↔ id = value ∧ id ≠ .null := by
  cases id <;> simp [blockFields, idFields, List.lookup]

theorem fieldOrNull_id_blockFields :
    Json.fieldOrNull (blockFields id type args contents) "id" = id := by
  cases id <;> rfl

theorem argsOfFields_blockFields (type' : String) :
    Args.ofFields type' (blockFields id type args contents) = Args.ofJson type' args := by
  cases id <;> simp [blockFields, idFields, Args.ofFields]

theorem contentsOfFields_blockFields :
    Content.listOfFields (blockFields id type args contents) = Content.listOfJson contents := by
  cases id <;> simp [blockFields, idFields, Content.listOfFields]

end

/-! ### Reading what was written -/

variable {id : Json} {type : String}

theorem Block.ofJson_toJson_iff {args : Args} {contents : List Content} :
    Block.ofJson (Block.mk id type args contents).toJson = .ok (.mk id type args contents) ↔
      Args.ofJson type args.toJson = .ok args ∧
        Content.listOfItems (Content.listToJson contents) = .ok contents := by
  rw [Block.toJson_eq, Block.ofJson]
  simp [lookup_type_blockFields, fieldOrNull_id_blockFields, argsOfFields_blockFields,
    contentsOfFields_blockFields, Content.listOfJson, bind_eq_ok, map_eq_ok]

/-- In a sequence a block is read back only if it has a type. -/
theorem Content.ofJson_block_iff (b : Block) :
    Content.ofJson (Content.block b).toJson = .ok (.block b) ↔
      b.type ≠ "" ∧ Block.ofJson b.toJson = .ok b := by
  rcases b with ⟨id, type, args, contents⟩
  rw [Content.toJson, Block.ofJson_toJson_iff, Block.toJson_eq, Content.ofJson, Json.fieldOrNull]
  simp only [lookup_type_blockFields, fieldOrNull_id_blockFields, argsOfFields_blockFields,
    contentsOfFields_blockFields, Content.listOfJson, Option.getD_some, Block.type, Json.truthy]
  by_cases ht : type = ""
  · simp [ht, map_eq_ok]
  · simp [ht, bind_eq_ok, map_eq_ok]

theorem Content.ofJson_group_iff (contents : List Content) :
    Content.ofJson (Content.group contents).toJson = .ok (.group contents) ↔
      Content.listOfItems (Content.listToJson contents) = .ok contents := by
  have ht : Json.fieldOrNull [("contents", Json.arr (Content.listToJson contents))] "type" =
      .null := rfl
  rw [Content.toJson, Content.ofJson, ht]
  simp [Json.truthy, Content.listOfFields, Content.listOfJson, map_eq_ok]

theorem Arg.ofJson_constant (value : String) :
    Arg.ofJson (Arg.constant value).toJson = .ok (.constant value) := by
  rw [Arg.toJson, Arg.ofJson]
  rfl

theorem Arg.ofJson_block_iff (value : List Block) :
    Arg.ofJson (Arg.block value).toJson = .ok (.block value) ↔
      Block.listOfItems (Block.listToJson value) = .ok value := by
  simp [Arg.toJson, Arg.ofJson, Json.fieldOrNull, Block.listOfFields, Block.listOfJson, map_eq_ok]

theorem Args.ofJson_list_iff (args : List Arg) :
    Args.ofJson type (Args.list args).toJson = .ok (.list args) ↔
      Arg.listOfItems (Arg.listToJson args) = .ok args := by
  simp [Args.toJson, Args.ofJson, map_eq_ok]

theorem Args.ofJson_monitor_iff (descriptor : List (String × Json)) :
    Args.ofJson type (Args.monitor descriptor).toJson = .ok (.monitor descriptor) ↔
      type ≠ Operation.callService.tag := by
  rw [Args.toJson, Args.ofJson]
  by_cases ht : type = Operation.callService.tag
  · simp [ht, map_eq_ok]
  · simp [ht]

theorem Args.ofJson_call_iff (serviceId serviceAction : Json) (values : List Arg) :
    Args.ofJson type (Args.call serviceId serviceAction values).toJson =
        .ok (.call serviceId serviceAction values) ↔
      type = Operation.callService.tag ∧ Arg.listOfItems (Arg.listToJson values) = .ok values := by
  rw [Args.toJson, Args.ofJson]
  by_cases ht : type = Operation.callService.tag
  · simp [ht, Json.fieldOrNull, List.lookup, Arg.listOfFields, Arg.listOfJson, map_eq_ok]
  · simp [ht]

theorem Arg.listOfItems_iff (arg : Arg) (rest : List Arg) :
    Arg.listOfItems (Arg.listToJson (arg :: rest)) = .ok (arg :: rest) ↔
      Arg.ofJson arg.toJson = .ok arg ∧ Arg.listOfItems (Arg.listToJson rest) = .ok rest := by
  simp [Arg.listToJson, Arg.listOfItems, bind_eq_ok, map_eq_ok]

theorem Content.listOfItems_iff (c : Content) (rest : List Content) :
    Content.listOfItems (Content.listToJson (c :: rest)) = .ok (c :: rest) ↔
      Content.ofJson c.toJson = .ok c ∧
        Content.listOfItems (Content.listToJson rest) = .ok rest := by
  simp [Content.listToJson, Content.listOfItems, bind_eq_ok, map_eq_ok]

theorem Block.listOfItems_iff (b : Block) (rest : List Block) :
    Block.listOfItems (Block.listToJson (b :: rest)) = .ok (b :: rest) ↔
      Block.ofJson b.toJson = .ok b ∧ Block.listOfItems (Block.listToJson rest) = .ok rest := by
  simp [Block.listToJson, Block.listOfItems, bind_eq_ok, map_eq_ok]

mutual

theorem Block.readsBack_iff : ∀ b : Block,
    Block.ofJson b.toJson = .ok b ↔ ∀ x ∈ b.blocks, x.ReadsBack
  | .mk id type args contents => by
    have hself : (Block.mk id type args contents).ReadsBack ↔
        args.ReadsBack type ∧ ∀ x ∈ Content.members contents, x.type ≠ "" :=
      ⟨fun h => ⟨h.args, h.typed⟩, fun h => ⟨h.1, h.2⟩⟩
    rw [Block.ofJson_toJson_iff, Block.forall_blocks, Args.readsBack_iff args,
      Content.listReadsBack_iff contents, hself]
    tauto

theorem Args.readsBack_iff : ∀ (args : Args) {type : String},
    Args.ofJson type args.toJson = .ok args ↔
      args.ReadsBack type ∧ ∀ x ∈ args.blocks, x.ReadsBack
  | .list args, type => by
    rw [Args.ofJson_list_iff, Arg.listReadsBack_iff args]
    exact (and_iff_right trivial).symm
  | .monitor descriptor, type => by
    rw [Args.ofJson_monitor_iff]
    simp [Args.ReadsBack, Args.blocks]
  | .call serviceId serviceAction values, type => by
    rw [Args.ofJson_call_iff, Arg.listReadsBack_iff values]
    rfl

theorem Arg.listReadsBack_iff : ∀ args : List Arg,
    Arg.listOfItems (Arg.listToJson args) = .ok args ↔ ∀ x ∈ Arg.listBlocks args, x.ReadsBack
  | [] => by simp [Arg.listToJson, Arg.listOfItems, Arg.listBlocks]
  | .constant value :: rest => by
    rw [Arg.listOfItems_iff, Arg.listReadsBack_iff rest, Arg.listBlocks]
    exact and_iff_right (Arg.ofJson_constant value)
  | .block value :: rest => by
    rw [Arg.listOfItems_iff, Arg.ofJson_block_iff, Block.listReadsBack_iff value,
      Arg.listReadsBack_iff rest, Arg.listBlocks, List.forall_mem_append]

theorem Content.listReadsBack_iff : ∀ contents : List Content,
    Content.listOfItems (Content.listToJson contents) = .ok contents ↔
      (∀ x ∈ Content.members contents, x.type ≠ "") ∧
        ∀ x ∈ Content.listBlocks contents, x.ReadsBack
  | [] => by simp [Content.listToJson, Content.listOfItems, Content.members, Content.listBlocks]
  | .block b :: rest => by
    rw [Content.listOfItems_iff, Content.ofJson_block_iff, Block.readsBack_iff b,
      Content.listReadsBack_iff rest, Content.members, Content.listBlocks, List.forall_mem_cons,
      List.forall_mem_append]
    tauto
  | .group contents :: rest => by
    rw [Content.listOfItems_iff, Content.ofJson_group_iff, Content.listReadsBack_iff contents,
      Content.listReadsBack_iff rest, Content.members, Content.listBlocks, List.forall_mem_append,
      List.forall_mem_append]
    tauto

theorem Block.listReadsBack_iff : ∀ blocks : List Block,
    Block.listOfItems (Block.listToJson blocks) = .ok blocks ↔
      ∀ x ∈ Block.listBlocks blocks, x.ReadsBack
  | [] => by simp [Block.listToJson, Block.listOfItems, Block.listBlocks]
  | b :: rest => by
    rw [Block.listOfItems_iff, Block.readsBack_iff b, Block.listReadsBack_iff rest,
      Block.listBlocks, List.forall_mem_append]

end

/-- A graph can be read back exactly if each of its blocks can. -/
theorem Graph.readsBack_iff (g : Graph) :
    Graph.ofJson g.toJson = .ok g ↔ ∀ b ∈ g.blocks, b.ReadsBack :=
  Block.listReadsBack_iff g

end BlockFlow
