import Mathlib
import BlockFlow.Proofs.Canonical.Outlines
import BlockFlow.Proofs.CompiledGraphs
import BlockFlow.Proofs.Graph.Reading
import BlockFlow.Proofs.Linking.Outcomes

/-! Documents that the schema accepts. They are read, and the schema accepts the graph that was read
and what linking and canonicalization make of it. -/

namespace BlockFlow

open FlowGraphSchema

variable {v : Json} {fields : List (String × Json)}

/-! ### What the schema asks of a document -/

theorem Json.exists_fits_of_oneOf {definitions : Definitions} {branches : List Schema}
    (h : v.Meets definitions (.oneOf branches)) : ∃ s ∈ branches, v.Fits definitions s := by
  have hpos := Nat.lt_of_lt_of_eq Nat.zero_lt_one (Json.meets_oneOf.mp h).symm
  obtain ⟨s, hs⟩ := List.exists_mem_of_length_pos hpos
  exact ⟨s, by simpa using List.mem_filter.mp hs⟩

theorem Json.fields_of_fits_object {definitions : Definitions} {s : Schema}
    (h : v.Fits definitions (.type .object :: s)) :
    ∃ fields, v = .obj fields ∧ (Json.obj fields).Fits definitions s := by
  obtain ⟨ht, hs⟩ := Json.fits_cons.mp h
  cases v with
  | obj fields => exact ⟨fields, rfl, hs⟩
  | _ => simp [JsonType.holds] at ht

namespace FlowGraphSchema

theorem items_of_fits_arrayOf {name : String} (h : v.Fits definitions (arrayOf name)) :
    v = .arr v.items ∧
      ∀ item ∈ v.items, item.Fits definitions ((definitions.lookup name).getD []) := by
  cases v with
  | arr items => exact ⟨rfl, fits_arrayOf.mp h⟩
  | _ => simp [arrayOf, JsonType.holds] at h

theorem fields_of_fits_compiledBlock (h : v.Fits definitions compiledBlock) :
    ∃ fields type args contents, v = .obj fields ∧
      (fields.lookup "type" = some (.str type) ∧ type ≠ "") ∧
      (fields.lookup "args" = some args ∧ args.Fits definitions blockArgs) ∧
      (fields.lookup "contents" = some contents ∧
        contents.Fits definitions (arrayOf "Content")) ∧
      ∀ id, fields.lookup "id" = some id → ∃ text, text ≠ "" ∧ id = .str text := by
  obtain ⟨fields, rfl, hs⟩ := Json.fields_of_fits_object h
  simp only [Json.fits_cons, Json.meets_required, Json.meets_properties, List.forall_mem_cons,
    Option.isSome_iff_exists] at hs
  obtain ⟨⟨⟨type, ht⟩, ⟨args, ha⟩, ⟨contents, hc⟩, _⟩, ⟨hid, htype, hargs, hcontents, _⟩, _⟩ := hs
  obtain ⟨text, hne, rfl⟩ := fits_nonEmptyText.mp (htype type ht)
  exact ⟨fields, text, args, contents, rfl, ⟨ht, hne⟩, ⟨ha, Json.fits_cons.mpr (hargs args ha)⟩,
    ⟨hc, hcontents contents hc⟩, fun id hi => fits_nonEmptyText.mp (hid id hi)⟩

theorem fields_of_fits_contentBlock (h : v.Fits definitions contentBlock) :
    ∃ fields contents, v = .obj fields ∧ fields.lookup "type" = none ∧
      fields.lookup "contents" = some contents ∧
        contents.Fits definitions (arrayOf "Content") := by
  obtain ⟨fields, rfl, hs⟩ := Json.fields_of_fits_object h
  simp only [Json.fits_cons, Json.fits_nil, and_true, Json.meets_not, Json.meets_required,
    Json.meets_properties, List.forall_mem_singleton, Option.not_isSome_iff_eq_none] at hs
  obtain ⟨hrequired, hnone, hproperties⟩ := hs
  obtain ⟨contents, hc⟩ := Option.isSome_iff_exists.mp hrequired
  exact ⟨fields, contents, rfl, hnone, hc, hproperties contents hc⟩

/-- Both kinds of arguments are asked for in this form. -/
theorem fields_of_fits_tagged {tag : String} {s : Schema}
    (h : v.Fits definitions [.type .object, .required ["type", "value"],
      .properties [("type", [.const tag]), ("value", s)]]) :
    ∃ fields value, v = .obj fields ∧ fields.lookup "type" = some (.str tag) ∧
      fields.lookup "value" = some value ∧ value.Fits definitions s := by
  obtain ⟨fields, rfl, hs⟩ := Json.fields_of_fits_object h
  simp only [Json.fits_cons, Json.fits_nil, and_true, Json.meets_required, Json.meets_properties,
    Json.meets_const, List.forall_mem_cons, Option.isSome_iff_exists] at hs
  obtain ⟨⟨⟨type, ht⟩, ⟨value, hv⟩, _⟩, htype, hvalue, _⟩ := hs
  obtain rfl := htype type ht
  exact ⟨fields, value, rfl, ht, hv, hvalue value hv⟩

end FlowGraphSchema

/-! ### Reading what the schema accepts -/

section

variable {α : Type} {read : Json → Except GraphError α} {complaint : Json → GraphError}
  {Q : α → Prop}

theorem exists_mapM_eq_ok {items : List Json}
    (h : ∀ item ∈ items, ∃ a, read item = .ok a ∧ Q a) :
    ∃ parts, items.mapM read = .ok parts ∧ ∀ a ∈ parts, Q a := by
  induction items with
  | nil => exact ⟨[], rfl, by simp⟩
  | cons item rest ih =>
    obtain ⟨hitem, hrest⟩ := List.forall_mem_cons.mp h
    obtain ⟨a, ha, hq⟩ := hitem
    obtain ⟨others, ho, hqs⟩ := ih hrest
    refine ⟨a :: others, ?_, List.forall_mem_cons.mpr ⟨hq, hqs⟩⟩
    rw [List.mapM_cons]
    exact bind_eq_ok.mpr ⟨a, ha, bind_eq_ok.mpr ⟨others, ho, rfl⟩⟩

theorem exists_readList_eq_ok {name : String} (hf : v.Fits definitions (arrayOf name))
    (h : ∀ item ∈ v.items, item.Fits definitions ((definitions.lookup name).getD []) →
      ∃ a, read item = .ok a ∧ Q a) :
    ∃ parts, readList read complaint v = .ok parts ∧ ∀ a ∈ parts, Q a := by
  obtain ⟨he, hitems⟩ := items_of_fits_arrayOf hf
  rw [he]
  exact exists_mapM_eq_ok fun item hi => h item hi (hitems item hi)

end

/-- Whatever the schema accepts a value as, it is read as, with a place in the schema for each
block. -/
structure Json.ReadsAsAccepted (v : Json) : Prop where
  block : v.Fits definitions compiledBlock →
    ∃ b, Block.ofJson v = .ok b ∧ ∀ x ∈ b.blocks, x.Representable
  content : v.Fits definitions content →
    ∃ c, Content.ofJson v = .ok c ∧ ∀ x ∈ c.blocks, x.Representable
  arg : v.Fits definitions compiledArg →
    ∃ a, Arg.ofJson v = .ok a ∧ ∀ x ∈ a.blocks, x.Representable
  args : v.Fits definitions blockArgs → ∀ type, ∃ args, Args.ofJson type v = .ok args ∧
    args.Representable ∧ ∀ x ∈ args.blocks, x.Representable

section

variable (h : ∀ item ∈ v.items, item.ReadsAsAccepted)
include h

theorem exists_readArgs (hf : v.Fits definitions (arrayOf "CompiledArg")) :
    ∃ args, readList Arg.ofJson .notAnArgument v = .ok args ∧
      ∀ x ∈ Arg.listBlocks args, x.Representable := by
  simp only [Arg.listBlocks_eq, List.forall_mem_flatMap]
  exact exists_readList_eq_ok hf fun item hi => (h item hi).arg

theorem exists_readBlocks (hf : v.Fits definitions (arrayOf "CompiledBlock")) :
    ∃ blocks, readList Block.ofJson .notABlock v = .ok blocks ∧
      ∀ x ∈ Block.listBlocks blocks, x.Representable := by
  simp only [Block.listBlocks_eq, List.forall_mem_flatMap]
  exact exists_readList_eq_ok hf fun item hi => (h item hi).block

theorem exists_readContents (hf : v.Fits definitions (arrayOf "Content")) :
    ∃ contents, readList Content.ofJson .notContent v = .ok contents ∧
      ∀ x ∈ Content.listBlocks contents, x.Representable := by
  simp only [Content.listBlocks_eq, List.forall_mem_flatMap]
  exact exists_readList_eq_ok hf fun item hi => (h item hi).content

end

theorem fieldOrNull_of_lookup {name : String} (h : fields.lookup name = some v) :
    Json.fieldOrNull fields name = v := by
  rw [Json.fieldOrNull, h, Option.getD_some]

section

variable (h : ∀ name, (Json.fieldOrNull fields name).ReadsAsAccepted ∧
  ∀ item ∈ (Json.fieldOrNull fields name).items, item.ReadsAsAccepted)
include h

theorem exists_readBlock (hf : (Json.obj fields).Fits definitions compiledBlock) :
    ∃ b, Block.ofJson (.obj fields) = .ok b ∧ ∀ x ∈ b.blocks, x.Representable := by
  obtain ⟨_, type, args, contents, ⟨⟩, ⟨ht, hne⟩, ⟨ha, hargs⟩, ⟨hc, hcontents⟩, hid⟩ :=
    fields_of_fits_compiledBlock hf
  obtain ⟨hargsField, -⟩ := h "args"
  obtain ⟨-, hcontentsField⟩ := h "contents"
  rw [← fieldOrNull_of_lookup ha] at hargs
  rw [← fieldOrNull_of_lookup hc] at hcontents
  obtain ⟨args', hra, hplace, hinside⟩ := hargsField.args hargs type
  obtain ⟨contents', hrc, hbelow⟩ := exists_readContents hcontentsField hcontents
  have hidField : Json.fieldOrNull fields "id" = .null ∨
      ∃ text, text ≠ "" ∧ Json.fieldOrNull fields "id" = .str text := by
    unfold Json.fieldOrNull
    cases hi : fields.lookup "id" with
    | none => exact .inl rfl
    | some id => exact .inr (hid id hi)
  refine ⟨_, Block.ofJson_eq_ok.mpr ⟨fields, type, args', contents', rfl, ht, hra, hrc, rfl⟩, ?_⟩
  exact Block.forall_blocks.mpr ⟨⟨hidField, hne, hplace⟩, hinside, hbelow⟩

/-- A block in a sequence is told from a body by its type, by the schema and in reading alike. -/
theorem exists_readContent (hf : (Json.obj fields).Fits definitions content) :
    ∃ c, Content.ofJson (.obj fields) = .ok c ∧ ∀ x ∈ c.blocks, x.Representable := by
  obtain ⟨s, hs, hf⟩ := Json.exists_fits_of_oneOf (Json.fits_singleton.mp hf)
  rcases List.mem_pair.mp hs with rfl | rfl
  · obtain ⟨b, hb, hblocks⟩ := exists_readBlock h hf
    obtain ⟨_, type, _, _, ⟨⟩, ⟨ht, hne⟩, _⟩ := fields_of_fits_compiledBlock hf
    have htruthy : (Json.fieldOrNull fields "type").truthy = true := by
      rw [fieldOrNull_of_lookup ht]
      simpa [Json.truthy] using hne
    exact ⟨.block b, Content.ofJson_eq_ok.mpr ⟨fields, rfl, .inl ⟨htruthy, b, hb, rfl⟩⟩, hblocks⟩
  · obtain ⟨_, contents, ⟨⟩, hn, hc, hcontents⟩ := fields_of_fits_contentBlock hf
    rw [← fieldOrNull_of_lookup hc] at hcontents
    obtain ⟨contents', hr, hbelow⟩ := exists_readContents (h "contents").2 hcontents
    have htruthy : (Json.fieldOrNull fields "type").truthy = false := by
      rw [Json.fieldOrNull, hn]
      rfl
    exact ⟨.group contents', Content.ofJson_eq_ok.mpr
      ⟨fields, rfl, .inr ⟨htruthy, contents', hr, rfl⟩⟩, hbelow⟩

theorem exists_readArg (hf : (Json.obj fields).Fits definitions compiledArg) :
    ∃ a, Arg.ofJson (.obj fields) = .ok a ∧ ∀ x ∈ a.blocks, x.Representable := by
  obtain ⟨s, hs, hf⟩ := Json.exists_fits_of_oneOf (Json.fits_singleton.mp hf)
  rcases List.mem_pair.mp hs with rfl | rfl
  · obtain ⟨_, value, ⟨⟩, ht, _⟩ := fields_of_fits_tagged hf
    exact ⟨_, Arg.ofJson_eq_ok.mpr ⟨fields, rfl, .inl ⟨fieldOrNull_of_lookup ht, rfl⟩⟩,
      by simp [Arg.blocks]⟩
  · obtain ⟨_, value, ⟨⟩, ht, hv, hvalue⟩ := fields_of_fits_tagged hf
    rw [← fieldOrNull_of_lookup hv] at hvalue
    obtain ⟨blocks, hr, hblocks⟩ := exists_readBlocks (h "value").2 hvalue
    exact ⟨.block blocks, Arg.ofJson_eq_ok.mpr
      ⟨fields, rfl, .inr ⟨fieldOrNull_of_lookup ht, blocks, hr, rfl⟩⟩, hblocks⟩

/-- A service call may come without values, and other blocks may have arguments that look like a
service call. -/
theorem exists_readObjectArgs (hf : (Json.obj fields).Fits definitions blockArgs) (type : String) :
    ∃ args, Args.ofJson type (.obj fields) = .ok args ∧ args.Representable ∧
      ∀ x ∈ args.blocks, x.Representable := by
  have hplace := fits_blockArgs_object.mp hf
  by_cases ht : type = Operation.callService.tag
  · obtain ⟨values, hr, hblocks⟩ : ∃ values, readList Arg.ofJson .notAnArgument
        (Json.fieldOrNull fields "service_call_values") = .ok values ∧
          ∀ x ∈ Arg.listBlocks values, x.Representable := by
      cases hl : fields.lookup "service_call_values" with
      | none =>
        rw [Json.fieldOrNull, hl]
        exact ⟨[], rfl, by simp [Arg.listBlocks]⟩
      | some values =>
        have hvalues := (hplace values hl).2.2
        rw [← fieldOrNull_of_lookup hl] at hvalues
        exact exists_readArgs (h "service_call_values").2 hvalues
    exact ⟨_, Args.ofJson_eq_ok.mpr (.inr (.inr ⟨fields, rfl, .inl ⟨ht, values, hr, rfl⟩⟩)),
      trivial, hblocks⟩
  · exact ⟨_, Args.ofJson_eq_ok.mpr (.inr (.inr ⟨fields, rfl, .inr ⟨ht, rfl⟩⟩)), hplace,
      by simp [Args.blocks]⟩

end

theorem Json.readsAsAccepted (v : Json) : v.ReadsAsAccepted := by
  induction v using Json.induction_within with | step v hitems hfields =>
  cases v with
  | obj fields =>
    have h := hfields fields rfl
    exact ⟨exists_readBlock h, exists_readContent h, exists_readArg h, exists_readObjectArgs h⟩
  | arr items =>
    constructor
    · simp [compiledBlock, JsonType.holds]
    · simp [content, compiledBlock, contentBlock, JsonType.holds, Json.meets_oneOf]
    · simp [compiledArg, constantArg, blockArg, JsonType.holds, Json.meets_oneOf]
    · intro hf type
      obtain ⟨args, hr, hblocks⟩ :=
        exists_readArgs hitems (fits_arrayOf.mpr (fits_blockArgs_list.mp hf))
      exact ⟨.list args, Args.ofJson_eq_ok.mpr (.inr (.inl ⟨items, args, rfl, hr, rfl⟩)), trivial,
        hblocks⟩
  | _ =>
    constructor
    · simp [compiledBlock, JsonType.holds]
    · simp [content, compiledBlock, contentBlock, JsonType.holds, Json.meets_oneOf]
    · simp [compiledArg, constantArg, blockArg, JsonType.holds, Json.meets_oneOf]
    · simp [blockArgs, arrayOf, callServiceArgs, monitorArgs, JsonType.holds, Json.meets_oneOf]

/-- A document that the schema accepts is a graph, with a place in the schema for each block. -/
theorem exists_graph_of_issues (h : LoadedSchema.flowGraph.issues v = .ok []) :
    ∃ g, Graph.ofJson v = .ok g ∧ ∀ b ∈ g.blocks, b.Representable := by
  have hf := (flowGraph_issues_iff v).mp h
  obtain ⟨he, -⟩ := items_of_fits_arrayOf hf
  obtain ⟨blocks, hr, hblocks⟩ := exists_readBlocks (fun item _ => item.readsAsAccepted) hf
  rw [he] at hr
  exact ⟨blocks, Graph.ofJson_eq_ok.mpr ⟨v.items, he, hr⟩, hblocks⟩

/-! ### Linking and canonicalization -/

variable {g : Graph}

theorem representable_of_link {s t : IdSupply} {label : String} {linked : Graph}
    (hg : ∀ b ∈ g.blocks, b.Representable) (hs : s.strategy = .sequential label)
    (h : s.link g = (.ok linked, t)) : ∀ b ∈ linked.blocks, b.Representable := by
  obtain ⟨k, hy, _⟩ := IdSupply.yields_of_link h
  have hlinked := (linkGraph_yields.mp hy).1.graph
  have hkept : ∀ b ∈ linked.blocks, b.type ≠ "" ∧ b.args.Representable := by
    refine (hlinked.blocks.forall_iff ?_ ?_).mpr fun b hb => ⟨(hg b hb).type, (hg b hb).args⟩
    · intro b copy hc
      rw [hc.type_eq, hc.args.representable_iff]
    · intro b hb
      obtain ⟨id, _, ha⟩ := hb.target
      refine ⟨type_ne_empty_of_isLinkPrimitive hb.primitive, ?_⟩
      rw [ha]
      trivial
  intro b hb
  exact ⟨.inr (hlinked.labelled (IdSupply.idAt_ne_empty hs) b hb), (hkept b hb).1, (hkept b hb).2⟩

theorem Args.representable_frame (args : Args) : args.frame.Representable ↔ args.Representable := by
  cases args <;> rfl

theorem exists_canonical_of_representable (hg : ∀ b ∈ g.blocks, b.Representable) :
    ∃ form, (g.canonical false).outcome = .ok form ∧ ∀ b ∈ form.blocks, b.Representable := by
  have hids : ∀ b ∈ g.blocks, b.id = .null ∨ ∃ text, b.id = .str text := by
    intro b hb
    rcases (hg b hb).id with hn | ⟨text, -, ht⟩
    · exact .inl hn
    · exact .inr ⟨text, ht⟩
  have hpasses : PassesOn (fun b => b.type ≠ "" ∧ b.args.Representable) Block.Representable := by
    intro b form hf
    show form.Representable ↔ b.type ≠ "" ∧ b.args.Representable
    rw [← b.args.representable_frame, ← hf.frame, Args.representable_frame, ← hf.type_eq]
    exact ⟨fun hr => ⟨hr.type, hr.args⟩, fun hr => ⟨.inl hf.noId, hr.1, hr.2⟩⟩
  obtain ⟨form, hform⟩ := exists_canonical hids
  refine ⟨form, hform, (forall_canonical_iff hpasses hform).mpr ?_⟩
  intro b hb
  exact ⟨(hg b hb).type, (hg b hb).args⟩

/-- The schema accepts the JSON forms of a graph and of its canonical form, which exists. -/
def Graph.Accepted (g : Graph) : Prop :=
  LoadedSchema.flowGraph.issues g.toJson = .ok [] ∧
    ∃ form, (g.canonical false).outcome = .ok form ∧
      LoadedSchema.flowGraph.issues form.toJson = .ok []

theorem accepted_of_representable (hg : ∀ b ∈ g.blocks, b.Representable) : g.Accepted := by
  obtain ⟨form, hform, hplaces⟩ := exists_canonical_of_representable hg
  exact ⟨g.schema_issues_iff.mpr hg, form, hform, form.schema_issues_iff.mpr hplaces⟩

/-- A document that the schema accepts is a graph, and the schema accepts this graph, what linking
makes of it with numbered ids, and the canonical forms of both. -/
theorem schema_invariant (h : LoadedSchema.flowGraph.issues v = .ok []) :
    ∃ g, Graph.ofJson v = .ok g ∧ g.Accepted ∧
      ∀ (s t : IdSupply) (label : String) (linked : Graph), s.strategy = .sequential label →
        s.link g = (.ok linked, t) → linked.Accepted := by
  obtain ⟨g, hg, hplaces⟩ := exists_graph_of_issues h
  refine ⟨g, hg, accepted_of_representable hplaces, ?_⟩
  intro s t label linked hs hl
  exact accepted_of_representable (representable_of_link hplaces hs hl)

/-- A service call with the arguments of a monitor, inside the path of a fork, and a monitor with
the arguments of a service call. -/
def exchangedArgs : Json :=
  .arr [
    .obj [("type", .str "op_fork_execution"), ("args", .arr []), ("note", .bool true),
      ("contents", .arr [.obj [("contents", .arr [
        .obj [("id", .str "x"), ("type", .str "command_call_service"),
          ("args", .obj [("key", .null)]), ("contents", .arr [])]])]])],
    .obj [("type", .str "wait_for_monitor"),
      ("args", .obj [("service_id", .int 1), ("service_action", .null),
        ("service_call_values", .arr [.obj [("type", .str "constant"), ("value", .str "")]])]),
      ("contents", .arr [])]]

def exchangedArgsGraph : Graph :=
  [.mk .null "op_fork_execution" (.list [])
      [.group [.block (.mk (.str "x") "command_call_service" (.call .null .null []) [])]],
    .mk .null "wait_for_monitor"
      (.monitor [("service_id", .int 1), ("service_action", .null),
        ("service_call_values", .arr [.obj [("type", .str "constant"), ("value", .str "")]])]) []]

def exchangedArgsLinked : Graph :=
  [.mk (.str "1") "op_fork_execution" (.list [])
      [.group [.block (.mk (.str "3") "command_call_service" (.call .null .null []) []),
        .block (.mk (.str "4") "jump_to_block" (.list [.constant "2"]) [])]],
    .mk (.str "2") "trigger_when_all_completed" (.list [.constant "1"]) [],
    .mk (.str "5") "wait_for_monitor"
      (.monitor [("service_id", .int 1), ("service_action", .null),
        ("service_call_values", .arr [.obj [("type", .str "constant"), ("value", .str "")]])]) []]

theorem exchangedArgs_invariant :
    LoadedSchema.flowGraph.issues exchangedArgs = .ok [] ∧
      Graph.ofJson exchangedArgs = .ok exchangedArgsGraph ∧ exchangedArgsGraph.Accepted ∧
        ((IdSupply.start toString (.sequential "")).link exchangedArgsGraph).1 =
          .ok exchangedArgsLinked ∧ exchangedArgsLinked.Accepted := by
  have hissues : LoadedSchema.flowGraph.issues exchangedArgs = .ok [] := rfl
  have hread : Graph.ofJson exchangedArgs = .ok exchangedArgsGraph := rfl
  have hlink : ((IdSupply.start toString (.sequential "")).link exchangedArgsGraph).1 =
      .ok exchangedArgsLinked := rfl
  obtain ⟨g, hg, haccepted, hlinked⟩ := schema_invariant hissues
  obtain rfl : exchangedArgsGraph = g := Except.ok.inj (hread.symm.trans hg)
  exact ⟨hissues, hread, haccepted, hlink, hlinked _ _ "" _ rfl (Prod.ext hlink rfl)⟩

end BlockFlow
