import Mathlib
import BlockFlow.Proofs.Graph.RoundTrip
import BlockFlow.Proofs.Json.Reordering

/-! What reading gives. Documents may be written loosely; what is read from them can be read back
from its JSON form. -/

namespace BlockFlow

/-! ### The parts of a document -/

namespace Json

theorem fieldOrNull_cons (key : String) (v : Json) (rest : List (String × Json)) (name : String) :
    fieldOrNull ((key, v) :: rest) name = if key = name then v else fieldOrNull rest name := by
  unfold fieldOrNull
  by_cases h : key = name
  · simp [h]
  · have hk : (name == key) = false := by simpa using Ne.symm h
    rw [List.lookup_cons, hk, if_neg h]

/-- The items of an array; other values have none. -/
def items : Json → List Json
  | .arr items => items
  | _ => []

/-- Induction over a document: from the items of an array, and from the fields of an object and
their items. -/
theorem induction_within {P : Json → Prop}
    (step : ∀ v, (∀ item ∈ v.items, P item) →
      (∀ fields, v = .obj fields → ∀ name,
        P (fieldOrNull fields name) ∧ ∀ item ∈ (fieldOrNull fields name).items, P item) → P v)
    (v : Json) : P v := by
  have hscalar (v : Json) (hi : v.items = []) (hf : ∀ fields, v ≠ .obj fields) :
      P v ∧ ∀ item ∈ v.items, P item :=
    ⟨step v (by simp [hi]) (fun fields he => (hf fields he).elim), by simp [hi]⟩
  have hboth : P v ∧ ∀ item ∈ v.items, P item := by
    induction v using induction_on with
    | null => exact hscalar _ rfl (by simp)
    | bool b => exact hscalar _ rfl (by simp)
    | int n => exact hscalar _ rfl (by simp)
    | float x => exact hscalar _ rfl (by simp)
    | str t => exact hscalar _ rfl (by simp)
    | arr items ih =>
      have hi : ∀ item ∈ (arr items).items, P item := fun item hm => (ih item hm).1
      exact ⟨step _ hi (by simp), hi⟩
    | obj fields ih =>
      refine ⟨step _ (by simp [items]) ?_, by simp [items]⟩
      rintro _ ⟨⟩ name
      unfold fieldOrNull
      cases hl : fields.lookup name with
      | none => exact hscalar _ rfl (by simp)
      | some v =>
        obtain ⟨before, after, rfl, _⟩ := List.lookup_eq_some_iff.mp hl
        exact ih (name, v) (by simp)
  exact hboth.1

end Json

/-! ### Lists -/

section

variable {α : Type} {read : Json → Except GraphError α} {complaint : Json → GraphError}

/-- A list of parts. What is empty stands for the empty list. -/
def readList (read : Json → Except GraphError α) (complaint : Json → GraphError) :
    Json → Except GraphError (List α)
  | .arr items => items.mapM read
  | v => noElements complaint v

theorem noElements_eq_ok {v : Json} {parts : List α} (h : noElements complaint v = .ok parts) :
    parts = [] := by
  unfold noElements at h
  split at h <;> (try split at h) <;> cases h <;> rfl

theorem forall_of_mapM_eq_ok {items : List Json} {parts : List α} {Q : α → Prop}
    (h : items.mapM read = .ok parts) (hq : ∀ item ∈ items, ∀ a, read item = .ok a → Q a) :
    ∀ a ∈ parts, Q a := by
  induction items generalizing parts with
  | nil =>
    cases h
    simp
  | cons item rest ih =>
    rw [List.mapM_cons] at h
    obtain ⟨a, ha, h⟩ := bind_eq_ok.mp h
    obtain ⟨others, ho, h⟩ := bind_eq_ok.mp h
    cases h
    obtain ⟨hitem, hrest⟩ := List.forall_mem_cons.mp hq
    exact List.forall_mem_cons.mpr ⟨hitem a ha, ih ho hrest⟩

theorem forall_of_readList_eq_ok {v : Json} {parts : List α} {Q : α → Prop}
    (h : readList read complaint v = .ok parts)
    (hq : ∀ item ∈ v.items, ∀ a, read item = .ok a → Q a) : ∀ a ∈ parts, Q a := by
  unfold readList at h
  split at h
  · exact forall_of_mapM_eq_ok h hq
  · rw [noElements_eq_ok h]
    simp

end

theorem Arg.listOfItems_eq (items : List Json) : Arg.listOfItems items = items.mapM Arg.ofJson := by
  induction items with
  | nil => rfl
  | cons item rest ih => rw [Arg.listOfItems, ih, List.mapM_cons]

theorem Content.listOfItems_eq (items : List Json) :
    Content.listOfItems items = items.mapM Content.ofJson := by
  induction items with
  | nil => rfl
  | cons item rest ih => rw [Content.listOfItems, ih, List.mapM_cons]

theorem Block.listOfItems_eq (items : List Json) :
    Block.listOfItems items = items.mapM Block.ofJson := by
  induction items with
  | nil => rfl
  | cons item rest ih => rw [Block.listOfItems, ih, List.mapM_cons]

theorem Arg.listOfFields_eq (fields : List (String × Json)) :
    Arg.listOfFields fields =
      readList Arg.ofJson .notAnArgument (Json.fieldOrNull fields "service_call_values") := by
  induction fields with
  | nil => rfl
  | cons field rest ih =>
    obtain ⟨name, v⟩ := field
    rw [Arg.listOfFields, Json.fieldOrNull_cons, ih]
    split
    · cases v with
      | arr items => exact Arg.listOfItems_eq items
      | _ => rfl
    · rfl

theorem Content.listOfFields_eq (fields : List (String × Json)) :
    Content.listOfFields fields =
      readList Content.ofJson .notContent (Json.fieldOrNull fields "contents") := by
  induction fields with
  | nil => rfl
  | cons field rest ih =>
    obtain ⟨name, v⟩ := field
    rw [Content.listOfFields, Json.fieldOrNull_cons, ih]
    split
    · cases v with
      | arr items => exact Content.listOfItems_eq items
      | _ => rfl
    · rfl

theorem Block.listOfFields_eq (fields : List (String × Json)) :
    Block.listOfFields fields =
      readList Block.ofJson .notABlock (Json.fieldOrNull fields "value") := by
  induction fields with
  | nil => rfl
  | cons field rest ih =>
    obtain ⟨name, v⟩ := field
    rw [Block.listOfFields, Json.fieldOrNull_cons, ih]
    split
    · cases v with
      | arr items => exact Block.listOfItems_eq items
      | _ => rfl
    · rfl

theorem Args.ofFields_eq (type : String) (fields : List (String × Json)) :
    Args.ofFields type fields = Args.ofJson type (Json.fieldOrNull fields "args") := by
  induction fields with
  | nil => rfl
  | cons field rest ih =>
    obtain ⟨name, v⟩ := field
    rw [Args.ofFields, Json.fieldOrNull_cons, ih]
    split <;> rfl

/-! ### What each part is read from -/

section

variable {v : Json} {fields : List (String × Json)} {type : String}

theorem Block.ofJson_eq_ok {b : Block} :
    Block.ofJson v = .ok b ↔
      ∃ fields type args contents, v = .obj fields ∧ fields.lookup "type" = some (.str type) ∧
        Args.ofJson type (Json.fieldOrNull fields "args") = .ok args ∧
        readList Content.ofJson .notContent (Json.fieldOrNull fields "contents") = .ok contents ∧
        .mk (Json.fieldOrNull fields "id") type args contents = b := by
  cases v with
  | obj fields =>
    rw [Block.ofJson]
    split
    · next type ht =>
      simp only [Args.ofFields_eq, Content.listOfFields_eq, bind_eq_ok]
      constructor
      · rintro ⟨args, ha, contents, hc, ⟨⟩⟩
        exact ⟨fields, type, args, contents, rfl, ht, ha, hc, rfl⟩
      · rintro ⟨_, type', args, contents, ⟨⟩, ht', ha, hc, rfl⟩
        obtain rfl : type = type' := by simpa [ht] using ht'
        exact ⟨args, ha, contents, hc, rfl⟩
    · next hn =>
      constructor
      · rintro ⟨⟩
      · rintro ⟨_, type, _, _, ⟨⟩, ht, _⟩
        exact (hn type ht).elim
  | _ => simp [Block.ofJson]

theorem Content.ofJson_obj (fields : List (String × Json)) :
    Content.ofJson (.obj fields) =
      if (Json.fieldOrNull fields "type").truthy then Content.block <$> Block.ofJson (.obj fields)
      else Content.group <$> Content.listOfFields fields := by
  rw [Content.ofJson, Block.ofJson]
  split
  · split
    · simp
    · rfl
  · simp

theorem Content.ofJson_eq_ok {c : Content} :
    Content.ofJson v = .ok c ↔
      ∃ fields, v = .obj fields ∧
        (((Json.fieldOrNull fields "type").truthy = true ∧
            ∃ b, Block.ofJson v = .ok b ∧ .block b = c) ∨
          ((Json.fieldOrNull fields "type").truthy = false ∧ ∃ contents,
            readList Content.ofJson .notContent (Json.fieldOrNull fields "contents") =
              .ok contents ∧ .group contents = c)) := by
  cases v with
  | obj fields =>
    rw [Content.ofJson_obj, Content.listOfFields_eq]
    split <;> simp_all [map_eq_ok]
  | _ => simp [Content.ofJson]

theorem Arg.ofJson_eq_ok {a : Arg} :
    Arg.ofJson v = .ok a ↔
      ∃ fields, v = .obj fields ∧
        ((Json.fieldOrNull fields "type" = .str "constant" ∧
            .constant ((fields.lookup "value").getD (.str "")).plainText = a) ∨
          (Json.fieldOrNull fields "type" = .str "block" ∧ ∃ value,
            readList Block.ofJson .notABlock (Json.fieldOrNull fields "value") = .ok value ∧
              .block value = a)) := by
  cases v with
  | obj fields =>
    rw [Arg.ofJson]
    split
    · simp_all
    · simp_all [Block.listOfFields_eq, map_eq_ok]
    · simp_all
  | _ => simp [Arg.ofJson]

/-- The type of a block decides how an object is read. -/
theorem Args.ofJson_eq_ok {args : Args} :
    Args.ofJson type v = .ok args ↔
      (v = .null ∧ .list [] = args) ∨
      (∃ items listed, v = .arr items ∧ items.mapM Arg.ofJson = .ok listed ∧
        .list listed = args) ∨
      (∃ fields, v = .obj fields ∧
        ((type = Operation.callService.tag ∧ ∃ values,
            readList Arg.ofJson .notAnArgument (Json.fieldOrNull fields "service_call_values") =
              .ok values ∧
            .call (Json.fieldOrNull fields "service_id")
              (Json.fieldOrNull fields "service_action") values = args) ∨
          (type ≠ Operation.callService.tag ∧ .monitor fields = args))) := by
  cases v with
  | null => simp [Args.ofJson]
  | arr items => simp [Args.ofJson, Arg.listOfItems_eq, map_eq_ok]
  | obj fields =>
    rw [Args.ofJson]
    split <;> simp_all [Arg.listOfFields_eq, map_eq_ok]
  | _ => simp [Args.ofJson]

end

/-! ### Reading back what was read -/

theorem Content.members_eq (contents : List Content) :
    Content.members contents = contents.flatMap fun c => Content.members [c] := by
  induction contents with
  | nil => simp [Content.members]
  | cons c rest ih => cases c <;> simp [Content.members, ih]

/-- A member of a sequence that can be read back there: a block must have a type. -/
structure Content.ReadsBack (c : Content) : Prop where
  typed : ∀ x ∈ Content.members [c], x.type ≠ ""
  blocks : ∀ x ∈ c.blocks, x.ReadsBack

/-- Whatever a value is read as can be read back. -/
structure Json.ReadsSoundly (v : Json) : Prop where
  block : ∀ b, Block.ofJson v = .ok b → ∀ x ∈ b.blocks, x.ReadsBack
  content : ∀ c, Content.ofJson v = .ok c → c.ReadsBack
  arg : ∀ a, Arg.ofJson v = .ok a → ∀ x ∈ a.blocks, x.ReadsBack
  args : ∀ type args, Args.ofJson type v = .ok args →
    args.ReadsBack type ∧ ∀ x ∈ args.blocks, x.ReadsBack

section

variable {v : Json} (h : ∀ item ∈ v.items, item.ReadsSoundly)
include h

theorem readsBack_of_readArgs {args : List Arg}
    (hr : readList Arg.ofJson .notAnArgument v = .ok args) :
    ∀ x ∈ Arg.listBlocks args, x.ReadsBack := by
  rw [Arg.listBlocks_eq, List.forall_mem_flatMap]
  exact forall_of_readList_eq_ok hr fun item hi => (h item hi).arg

theorem readsBack_of_readBlocks {blocks : List Block}
    (hr : readList Block.ofJson .notABlock v = .ok blocks) :
    ∀ x ∈ Block.listBlocks blocks, x.ReadsBack := by
  rw [Block.listBlocks_eq, List.forall_mem_flatMap]
  exact forall_of_readList_eq_ok hr fun item hi => (h item hi).block

theorem readsBack_of_readContents {contents : List Content}
    (hr : readList Content.ofJson .notContent v = .ok contents) :
    (∀ x ∈ Content.members contents, x.type ≠ "") ∧
      ∀ x ∈ Content.listBlocks contents, x.ReadsBack := by
  have hc := forall_of_readList_eq_ok hr fun item hi => (h item hi).content
  rw [Content.members_eq, Content.listBlocks_eq, List.forall_mem_flatMap, List.forall_mem_flatMap]
  exact ⟨fun c hm => (hc c hm).typed, fun c hm => (hc c hm).blocks⟩

end

theorem Json.readsSoundly (v : Json) : v.ReadsSoundly := by
  induction v using Json.induction_within with | step v hitems hfields =>
  have hblock : ∀ b, Block.ofJson v = .ok b → ∀ x ∈ b.blocks, x.ReadsBack := by
    intro b hb
    obtain ⟨fields, type, args, contents, rfl, _, ha, hc, rfl⟩ := Block.ofJson_eq_ok.mp hb
    obtain ⟨hargs, hinside⟩ := (hfields fields rfl "args").1.args type args ha
    obtain ⟨htyped, hbelow⟩ := readsBack_of_readContents (hfields fields rfl "contents").2 hc
    exact Block.forall_blocks.mpr ⟨⟨hargs, htyped⟩, hinside, hbelow⟩
  refine ⟨hblock, ?_, ?_, ?_⟩
  · intro c hc
    obtain ⟨fields, rfl, ⟨ht, b, hb, rfl⟩ | ⟨_, contents, hr, rfl⟩⟩ := Content.ofJson_eq_ok.mp hc
    · refine ⟨?_, hblock b hb⟩
      -- only a type that is not empty makes a member of a sequence a block
      obtain ⟨_, type, _, _, ⟨⟩, hl, _, _, rfl⟩ := Block.ofJson_eq_ok.mp hb
      simpa [Content.members, Block.type, Json.fieldOrNull, hl, Json.truthy] using ht
    · obtain ⟨htyped, hbelow⟩ := readsBack_of_readContents (hfields fields rfl "contents").2 hr
      exact ⟨by simpa [Content.members] using htyped, hbelow⟩
  · intro a ha
    obtain ⟨fields, rfl, ⟨_, rfl⟩ | ⟨_, value, hr, rfl⟩⟩ := Arg.ofJson_eq_ok.mp ha
    · simp [Arg.blocks]
    · exact readsBack_of_readBlocks (hfields fields rfl "value").2 hr
  · intro type args ha
    rcases Args.ofJson_eq_ok.mp ha with ⟨rfl, rfl⟩ | ⟨items, listed, rfl, hr, rfl⟩ |
      ⟨fields, rfl, ⟨ht, values, hr, rfl⟩ | ⟨ht, rfl⟩⟩
    · exact ⟨trivial, by simp [Args.blocks, Arg.listBlocks]⟩
    · exact ⟨trivial, readsBack_of_readArgs hitems hr⟩
    · exact ⟨ht, readsBack_of_readArgs (hfields fields rfl "service_call_values").2 hr⟩
    · exact ⟨ht, by simp [Args.blocks]⟩

theorem Graph.ofJson_eq_ok {d : Json} {g : Graph} :
    Graph.ofJson d = .ok g ↔ ∃ items, d = .arr items ∧ items.mapM Block.ofJson = .ok g := by
  cases d with
  | arr items => simp [Graph.ofJson, Block.listOfItems_eq]
  | _ => simp [Graph.ofJson]

/-- What is written after a document was read. -/
def Json.normalForm (d : Json) : Except GraphError Json := Graph.toJson <$> Graph.ofJson d

/-- A graph that was read from any document is read back from its own JSON form, so that a normal
form is its own normal form. -/
theorem parsed_reads_back {d : Json} {g : Graph} (h : Graph.ofJson d = .ok g) :
    Graph.ofJson g.toJson = .ok g ∧ d.normalForm = .ok g.toJson ∧
      g.toJson.normalForm = .ok g.toJson := by
  have hback : Graph.ofJson g.toJson = .ok g := by
    rw [g.readsBack_iff]
    obtain ⟨items, rfl, hr⟩ := Graph.ofJson_eq_ok.mp h
    exact readsBack_of_readBlocks (v := .arr items) (fun item _ => item.readsSoundly) hr
  refine ⟨hback, ?_, ?_⟩
  · rw [Json.normalForm, h]
    rfl
  · rw [Json.normalForm, hback]
    rfl

/-- An id that is no text, arguments and contents that are empty in other ways than as lists, a
constant that is no text, and a body that states an empty type. -/
def looseDocument : Json :=
  .arr [
    .obj [("type", .str "command_call_service"), ("id", .arr [.int 1]), ("note", .null),
      ("args", .obj [("service_call_values", .int 0)]), ("contents", .str "")],
    .obj [("args", .obj [("service_call_values", .int 0)]), ("type", .str ""), ("id", .null)],
    .obj [("type", .str "op_log_value"),
      ("args", .arr [.obj [("type", .str "constant"), ("value", .arr [.bool true, .null])],
        .obj [("type", .str "block"), ("value", .bool false)]]),
      ("contents", .arr [.obj [("type", .str ""), ("args", .int 7),
        ("contents", .arr [.obj [("type", .str "control_wait")]])]])]]

def looseGraph : Graph :=
  [.mk (.arr [.int 1]) "command_call_service" (.call .null .null []) [],
    .mk .null "" (.monitor [("service_call_values", .int 0)]) [],
    .mk .null "op_log_value" (.list [.constant "[True, None]", .block []])
      [.group [.block (.mk .null "control_wait" (.list []) [])]]]

theorem looseDocument_reads_back :
    Graph.ofJson looseDocument = .ok looseGraph ∧
      Graph.ofJson looseGraph.toJson = .ok looseGraph ∧
        looseDocument.normalForm = looseGraph.toJson.normalForm := by
  have hread : Graph.ofJson looseDocument = .ok looseGraph := rfl
  obtain ⟨hback, hform, hsame⟩ := parsed_reads_back hread
  exact ⟨hread, hback, hform.trans hsame.symm⟩

end BlockFlow
