import Mathlib
import BlockFlow.Proofs.Graph.Reading

/-! The format of graph documents, and that reading succeeds on exactly the documents in it. -/

namespace BlockFlow

open Json

/-- A list of parts. What is absent or empty stands for the empty list. -/
inductive Json.IsListOf (Part : Json → Prop) : Json → Prop
  | nothing {v : Json} (h : v.truthy = false) : IsListOf Part v
  | items {items : List Json} (h : ∀ item ∈ items, Part item) : IsListOf Part (.arr items)

mutual

/-- A block: an object whose type is a text, also an empty one. -/
inductive Json.IsBlock : Json → Prop
  | block {fields : List (String × Json)} {type : String}
      (htype : fields.lookup "type" = some (.str type))
      (hargs : IsArgs type (fieldOrNull fields "args"))
      (hcontents : IsListOf IsContent (fieldOrNull fields "contents")) :
    IsBlock (.obj fields)

/-- A member of a sequence: a block if it states a type, otherwise a body. -/
inductive Json.IsContent : Json → Prop
  | block {fields : List (String × Json)}
      (htype : (fieldOrNull fields "type").truthy = true) (h : IsBlock (.obj fields)) :
    IsContent (.obj fields)
  | body {fields : List (String × Json)}
      (htype : (fieldOrNull fields "type").truthy = false)
      (hcontents : IsListOf IsContent (fieldOrNull fields "contents")) :
    IsContent (.obj fields)

/-- An argument: a constant with any value or none, or blocks. -/
inductive Json.IsArg : Json → Prop
  | constant {fields : List (String × Json)}
      (htype : fields.lookup "type" = some (.str "constant")) : IsArg (.obj fields)
  | block {fields : List (String × Json)}
      (htype : fields.lookup "type" = some (.str "block"))
      (hvalue : IsListOf IsBlock (fieldOrNull fields "value")) : IsArg (.obj fields)

/-- The arguments of a block of some type. Only in a service call does the format look into an
object. -/
inductive Json.IsArgs : String → Json → Prop
  | absent {type : String} : IsArgs type .null
  | list {type : String} {items : List Json} (h : ∀ item ∈ items, IsArg item) :
    IsArgs type (.arr items)
  | descriptor {type : String} {fields : List (String × Json)}
      (htype : type ≠ Operation.callService.tag) : IsArgs type (.obj fields)
  | call {fields : List (String × Json)}
      (hvalues : IsListOf IsArg (fieldOrNull fields "service_call_values")) :
    IsArgs Operation.callService.tag (.obj fields)

end

/-- A graph: an array of blocks. -/
inductive Json.IsGraph : Json → Prop
  | blocks {items : List Json} (h : ∀ item ∈ items, IsBlock item) : IsGraph (.arr items)

/-! ### Reading follows the format -/

section

variable {α : Type} {read : Json → Except GraphError α} {complaint : Json → GraphError}
  {Part : Json → Prop}

theorem exists_mapM_ok_iff {items : List Json}
    (h : ∀ item ∈ items, (∃ a, read item = .ok a) ↔ Part item) :
    (∃ parts, items.mapM read = .ok parts) ↔ ∀ item ∈ items, Part item := by
  induction items with
  | nil => exact iff_of_true ⟨[], rfl⟩ (by simp)
  | cons item rest ih =>
    obtain ⟨hitem, hrest⟩ := List.forall_mem_cons.mp h
    rw [List.forall_mem_cons, ← hitem, ← ih hrest, List.mapM_cons]
    constructor
    · rintro ⟨parts, hp⟩
      obtain ⟨a, ha, hp⟩ := bind_eq_ok.mp hp
      obtain ⟨others, ho, _⟩ := bind_eq_ok.mp hp
      exact ⟨⟨a, ha⟩, others, ho⟩
    · rintro ⟨⟨a, ha⟩, others, ho⟩
      exact ⟨a :: others, bind_eq_ok.mpr ⟨a, ha, bind_eq_ok.mpr ⟨others, ho, rfl⟩⟩⟩

theorem exists_noElements_ok_iff (v : Json) :
    (∃ parts, noElements (α := α) complaint v = .ok parts) ↔ v.truthy = false := by
  unfold noElements
  split
  · next text =>
    split
    · next ht => simp [truthy, String.toList_eq_nil_iff.mp ht]
    · next ht =>
      have hne : text ≠ "" := by
        rintro rfl
        simp at ht
      simp [truthy, hne]
  · simp [truthy]
  · simp [truthy]
  · split <;> simp_all

theorem exists_readList_ok_iff {v : Json}
    (h : ∀ item ∈ v.items, (∃ a, read item = .ok a) ↔ Part item) :
    (∃ parts, readList read complaint v = .ok parts) ↔ v.IsListOf Part := by
  unfold readList
  split
  · next items =>
    refine (exists_mapM_ok_iff h).trans ⟨.items, ?_⟩
    rintro (hnone | hitems)
    · have hempty : items = [] := by simpa [truthy] using hnone
      simp [hempty, Json.items]
    · exact hitems
  · next hn =>
    rw [exists_noElements_ok_iff]
    refine ⟨.nothing, ?_⟩
    rintro (hnone | hitems)
    · exact hnone
    · exact (hn _ rfl).elim

end

/-- Whatever a value is to be read as, it is read if the format describes it as that. -/
structure Json.ReadsByFormat (v : Json) : Prop where
  block : (∃ b, Block.ofJson v = .ok b) ↔ v.IsBlock
  content : (∃ c, Content.ofJson v = .ok c) ↔ v.IsContent
  arg : (∃ a, Arg.ofJson v = .ok a) ↔ v.IsArg
  args : ∀ type, (∃ args, Args.ofJson type v = .ok args) ↔ v.IsArgs type

theorem fieldOrNull_eq_str {fields : List (String × Json)} {name text : String} :
    fieldOrNull fields name = .str text ↔ fields.lookup name = some (.str text) := by
  unfold fieldOrNull
  cases fields.lookup name <;> simp

section

variable {fields : List (String × Json)}
  (h : ∀ name, (fieldOrNull fields name).ReadsByFormat ∧
    ∀ item ∈ (fieldOrNull fields name).items, item.ReadsByFormat)
include h

theorem exists_readContents_iff :
    (∃ contents, readList Content.ofJson .notContent (fieldOrNull fields "contents") =
      .ok contents) ↔ (fieldOrNull fields "contents").IsListOf IsContent :=
  exists_readList_ok_iff fun item hi => ((h "contents").2 item hi).content

theorem exists_ofJson_block_iff :
    (∃ b, Block.ofJson (.obj fields) = .ok b) ↔ (Json.obj fields).IsBlock := by
  constructor
  · rintro ⟨b, hb⟩
    obtain ⟨_, type, args, contents, ⟨⟩, ht, ha, hc, _⟩ := Block.ofJson_eq_ok.mp hb
    exact .block ht (((h "args").1.args type).mp ⟨args, ha⟩)
      ((exists_readContents_iff h).mp ⟨contents, hc⟩)
  · rintro ⟨ht, hargs, hcontents⟩
    obtain ⟨args, ha⟩ := ((h "args").1.args _).mpr hargs
    obtain ⟨contents, hc⟩ := (exists_readContents_iff h).mpr hcontents
    exact ⟨_, Block.ofJson_eq_ok.mpr ⟨fields, _, args, contents, rfl, ht, ha, hc, rfl⟩⟩

theorem exists_ofJson_content_iff :
    (∃ c, Content.ofJson (.obj fields) = .ok c) ↔ (Json.obj fields).IsContent := by
  constructor
  · rintro ⟨c, hc⟩
    obtain ⟨_, ⟨⟩, ⟨ht, b, hb, _⟩ | ⟨ht, contents, hr, _⟩⟩ := Content.ofJson_eq_ok.mp hc
    · exact .block ht ((exists_ofJson_block_iff h).mp ⟨b, hb⟩)
    · exact .body ht ((exists_readContents_iff h).mp ⟨contents, hr⟩)
  · rintro (⟨ht, hblock⟩ | ⟨ht, hcontents⟩)
    · obtain ⟨b, hb⟩ := (exists_ofJson_block_iff h).mpr hblock
      exact ⟨.block b, Content.ofJson_eq_ok.mpr ⟨fields, rfl, .inl ⟨ht, b, hb, rfl⟩⟩⟩
    · obtain ⟨contents, hr⟩ := (exists_readContents_iff h).mpr hcontents
      exact ⟨.group contents, Content.ofJson_eq_ok.mpr
        ⟨fields, rfl, .inr ⟨ht, contents, hr, rfl⟩⟩⟩

theorem exists_ofJson_arg_iff :
    (∃ a, Arg.ofJson (.obj fields) = .ok a) ↔ (Json.obj fields).IsArg := by
  have hvalue : (∃ value, readList Block.ofJson .notABlock (fieldOrNull fields "value") =
      .ok value) ↔ (fieldOrNull fields "value").IsListOf IsBlock :=
    exists_readList_ok_iff fun item hi => ((h "value").2 item hi).block
  constructor
  · rintro ⟨a, ha⟩
    obtain ⟨_, ⟨⟩, ⟨ht, _⟩ | ⟨ht, value, hr, _⟩⟩ := Arg.ofJson_eq_ok.mp ha
    · exact .constant (fieldOrNull_eq_str.mp ht)
    · exact .block (fieldOrNull_eq_str.mp ht) (hvalue.mp ⟨value, hr⟩)
  · rintro (ht | ⟨ht, hblocks⟩)
    · exact ⟨_, Arg.ofJson_eq_ok.mpr ⟨fields, rfl, .inl ⟨fieldOrNull_eq_str.mpr ht, rfl⟩⟩⟩
    · obtain ⟨value, hr⟩ := hvalue.mpr hblocks
      exact ⟨.block value, Arg.ofJson_eq_ok.mpr
        ⟨fields, rfl, .inr ⟨fieldOrNull_eq_str.mpr ht, value, hr, rfl⟩⟩⟩

theorem exists_ofJson_objectArgs_iff (type : String) :
    (∃ args, Args.ofJson type (.obj fields) = .ok args) ↔ (Json.obj fields).IsArgs type := by
  have hvalues : (∃ values, readList Arg.ofJson .notAnArgument
      (fieldOrNull fields "service_call_values") = .ok values) ↔
        (fieldOrNull fields "service_call_values").IsListOf IsArg :=
    exists_readList_ok_iff fun item hi => ((h "service_call_values").2 item hi).arg
  constructor
  · rintro ⟨args, ha⟩
    obtain ⟨⟨⟩, _⟩ | ⟨_, _, ⟨⟩, _⟩ | ⟨_, ⟨⟩, ⟨rfl, values, hr, _⟩ | ⟨ht, _⟩⟩ :=
      Args.ofJson_eq_ok.mp ha
    · exact .call (hvalues.mp ⟨values, hr⟩)
    · exact .descriptor ht
  · rintro (_ | _ | ht | hlist)
    · exact ⟨_, Args.ofJson_eq_ok.mpr (.inr (.inr ⟨fields, rfl, .inr ⟨ht, rfl⟩⟩))⟩
    · obtain ⟨values, hr⟩ := hvalues.mpr hlist
      exact ⟨_, Args.ofJson_eq_ok.mpr
        (.inr (.inr ⟨fields, rfl, .inl ⟨rfl, values, hr, rfl⟩⟩))⟩

end

theorem exists_ofJson_listArgs_iff {items : List Json} (h : ∀ item ∈ items, item.ReadsByFormat)
    (type : String) :
    (∃ args, Args.ofJson type (.arr items) = .ok args) ↔ (Json.arr items).IsArgs type := by
  have hitems := exists_mapM_ok_iff fun item hi => (h item hi).arg
  constructor
  · rintro ⟨args, ha⟩
    obtain ⟨⟨⟩, _⟩ | ⟨_, listed, ⟨⟩, hr, _⟩ | ⟨_, ⟨⟩, _⟩ := Args.ofJson_eq_ok.mp ha
    exact .list (hitems.mp ⟨listed, hr⟩)
  · rintro (_ | hparts)
    obtain ⟨listed, hr⟩ := hitems.mpr hparts
    exact ⟨.list listed, Args.ofJson_eq_ok.mpr (.inr (.inl ⟨items, listed, rfl, hr, rfl⟩))⟩

/-- What is no object can only be arguments. -/
theorem readsByFormat_of_not_object {v : Json} (hv : ∀ fields, v ≠ .obj fields)
    (hargs : ∀ type, (∃ args, Args.ofJson type v = .ok args) ↔ v.IsArgs type) :
    v.ReadsByFormat := by
  refine ⟨iff_of_false ?_ ?_, iff_of_false ?_ ?_, iff_of_false ?_ ?_, hargs⟩
  · rintro ⟨b, hb⟩
    obtain ⟨fields, _, _, _, rfl, _⟩ := Block.ofJson_eq_ok.mp hb
    exact hv fields rfl
  · rintro ⟨⟩
    exact hv _ rfl
  · rintro ⟨c, hc⟩
    obtain ⟨fields, rfl, _⟩ := Content.ofJson_eq_ok.mp hc
    exact hv fields rfl
  · rintro (_ | _) <;> exact hv _ rfl
  · rintro ⟨a, ha⟩
    obtain ⟨fields, rfl, _⟩ := Arg.ofJson_eq_ok.mp ha
    exact hv fields rfl
  · rintro (_ | _) <;> exact hv _ rfl

theorem Json.readsByFormat (v : Json) : v.ReadsByFormat := by
  induction v using Json.induction_within with | step v hitems hfields =>
  cases v with
  | obj fields =>
    have h := hfields fields rfl
    exact ⟨exists_ofJson_block_iff h, exists_ofJson_content_iff h, exists_ofJson_arg_iff h,
      exists_ofJson_objectArgs_iff h⟩
  | arr items =>
    exact readsByFormat_of_not_object (by simp) (exists_ofJson_listArgs_iff hitems)
  | null =>
    exact readsByFormat_of_not_object (by simp) fun _ => iff_of_true ⟨.list [], rfl⟩ .absent
  | _ =>
    refine readsByFormat_of_not_object (by simp) fun type => iff_of_false ?_ (by rintro ⟨⟩)
    simp [Args.ofJson]

theorem isGraph_of_ofJson {d : Json} {g : Graph} (h : Graph.ofJson d = .ok g) : d.IsGraph := by
  obtain ⟨items, rfl, hr⟩ := Graph.ofJson_eq_ok.mp h
  exact .blocks ((exists_mapM_ok_iff fun item _ => item.readsByFormat.block).mp ⟨g, hr⟩)

theorem Json.IsGraph.reads {d : Json} (h : d.IsGraph) : ∃ g, Graph.ofJson d = .ok g := by
  obtain ⟨hblocks⟩ := h
  obtain ⟨g, hr⟩ := (exists_mapM_ok_iff fun item _ => item.readsByFormat.block).mpr hblocks
  exact ⟨g, Graph.ofJson_eq_ok.mpr ⟨_, rfl, hr⟩⟩

/-- Reading gives a graph for exactly the documents in the format. -/
theorem reading_accepts_format (d : Json) : (∃ g, Graph.ofJson d = .ok g) ↔ d.IsGraph := by
  constructor
  · rintro ⟨g, hg⟩
    exact isGraph_of_ofJson hg
  · intro h
    exact h.reads

end BlockFlow
