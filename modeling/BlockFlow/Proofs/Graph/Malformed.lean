import Mathlib
import BlockFlow.Cli.Job
import BlockFlow.Proofs.Compilation
import BlockFlow.Proofs.Graph.Format

/-! How reading a malformed document ends. Most faults are told as what they are; a number or `true`
in the place of a list is not, since it cannot be walked. -/

namespace BlockFlow

open Json

/-- A value without elements that does not count as empty: `true`, or a number other than zero. -/
def Json.IsStray : Json → Prop
  | .bool b => b = true
  | .int n => n ≠ 0
  | .float x => x.isZero = false
  | _ => False

/-- The first fault of a list of parts is `x`: the list itself, or the first fault of a part behind
parts without fault. -/
inductive Json.StopsList (x : Json) (Part Stops : Json → Prop) : Json → Prop
  | here (h : x.IsStray) : StopsList x Part Stops x
  | item {before : List Json} {item : Json} {after : List Json}
      (hbefore : ∀ v ∈ before, Part v) (h : Stops item) :
    StopsList x Part Stops (.arr (before ++ item :: after))

mutual

/-- The first fault of a block, its arguments before its contents, is the stray value `x`. -/
inductive Json.StopsBlock (x : Json) : Json → Prop
  | args {fields : List (String × Json)} {type : String}
      (htype : fields.lookup "type" = some (.str type))
      (h : StopsArgs x type (fieldOrNull fields "args")) : StopsBlock x (.obj fields)
  | contents {fields : List (String × Json)} {type : String}
      (htype : fields.lookup "type" = some (.str type))
      (hargs : IsArgs type (fieldOrNull fields "args"))
      (h : StopsList x IsContent (StopsContent x) (fieldOrNull fields "contents")) :
    StopsBlock x (.obj fields)

inductive Json.StopsContent (x : Json) : Json → Prop
  | block {fields : List (String × Json)}
      (htype : (fieldOrNull fields "type").truthy = true) (h : StopsBlock x (.obj fields)) :
    StopsContent x (.obj fields)
  | body {fields : List (String × Json)}
      (htype : (fieldOrNull fields "type").truthy = false)
      (h : StopsList x IsContent (StopsContent x) (fieldOrNull fields "contents")) :
    StopsContent x (.obj fields)

inductive Json.StopsArg (x : Json) : Json → Prop
  | block {fields : List (String × Json)}
      (htype : fields.lookup "type" = some (.str "block"))
      (h : StopsList x IsBlock (StopsBlock x) (fieldOrNull fields "value")) :
    StopsArg x (.obj fields)

inductive Json.StopsArgs (x : Json) : String → Json → Prop
  | list {type : String} {before : List Json} {item : Json} {after : List Json}
      (hbefore : ∀ v ∈ before, IsArg v) (h : StopsArg x item) :
    StopsArgs x type (.arr (before ++ item :: after))
  | call {fields : List (String × Json)}
      (h : StopsList x IsArg (StopsArg x) (fieldOrNull fields "service_call_values")) :
    StopsArgs x Operation.callService.tag (.obj fields)

end

/-- The first fault of a graph is the stray value `x`. -/
inductive Json.StopsGraph (x : Json) : Json → Prop
  | block {before : List Json} {item : Json} {after : List Json}
      (hbefore : ∀ v ∈ before, IsBlock v) (h : StopsBlock x item) :
    StopsGraph x (.arr (before ++ item :: after))

/-! ### Failures of reading -/

theorem bind_eq_error {ε α β : Type} {x : Except ε α} {f : α → Except ε β} {e : ε} :
    x >>= f = .error e ↔ x = .error e ∨ ∃ a, x = .ok a ∧ f a = .error e := by
  cases x with
  | error e' => simp [bind, Except.bind]
  | ok a => simp [bind, Except.bind]

theorem map_eq_error {ε α β : Type} {x : Except ε α} {f : α → β} {e : ε} :
    f <$> x = .error e ↔ x = .error e := by
  cases x <;> simp [Functor.map, Except.map]

section

variable {α β ε : Type} {f : α → Except ε β}

/-- A list is read up to its first member that cannot be read. -/
theorem mapM_eq_error {xs : List α} {e : ε} :
    xs.mapM f = .error e ↔ ∃ before x after, xs = before ++ x :: after ∧
      (∀ y ∈ before, ∃ b, f y = .ok b) ∧ f x = .error e := by
  induction xs with
  | nil => simp [pure, Except.pure]
  | cons x xs ih =>
    simp only [List.mapM_cons, bind_eq_error, bind_pure_comp, map_eq_error, ih]
    constructor
    · rintro (hx | ⟨b, hb, before, y, after, rfl, hbefore, hy⟩)
      · exact ⟨[], x, xs, rfl, by simp, hx⟩
      · exact ⟨x :: before, y, after, rfl, List.forall_mem_cons.mpr ⟨⟨b, hb⟩, hbefore⟩, hy⟩
    · rintro ⟨_ | ⟨z, before⟩, y, after, he, hbefore, hy⟩
      · obtain ⟨rfl, rfl⟩ := List.cons.inj he
        exact .inl hy
      · obtain ⟨rfl, rfl⟩ := List.cons.inj he
        obtain ⟨⟨b, hb⟩, hbefore⟩ := List.forall_mem_cons.mp hbefore
        exact .inr ⟨b, hb, before, y, after, rfl, hbefore, hy⟩

end

section

variable {α : Type} {read : Json → Except GraphError α} {complaint : Json → GraphError}
  {Part Stops : Json → Prop} {x v : Json}

theorem noElements_eq_notIterable (hc : ∀ w, complaint w ≠ .notIterable x)
    (hv : ∀ items, v ≠ .arr items) :
    noElements (α := α) complaint v = .error (.notIterable x) ↔ v = x ∧ x.IsStray := by
  have hscalar (hn : noElements (α := α) complaint v =
      if v.truthy then .error (.notIterable v) else .ok []) (hs : v.IsStray ↔ v.truthy = true) :
      noElements (α := α) complaint v = .error (.notIterable x) ↔ v = x ∧ x.IsStray := by
    rw [hn]
    constructor
    · intro he
      split at he <;> cases he
      exact ⟨rfl, hs.mpr ‹_›⟩
    · rintro ⟨rfl, hx⟩
      rw [if_pos (hs.mp hx)]
  cases v with
  | arr items => exact (hv items rfl).elim
  | str text =>
    refine iff_of_false ?_ (by rintro ⟨rfl, ⟨⟩⟩)
    rw [noElements]
    split
    · rintro ⟨⟩
    · simpa using hc _
  | obj fields =>
    refine iff_of_false ?_ (by rintro ⟨rfl, ⟨⟩⟩)
    rcases fields with _ | ⟨⟨name, _⟩, _⟩
    · rintro ⟨⟩
    · simpa [noElements] using hc _
  | null => exact hscalar rfl (by simp [IsStray, truthy])
  | bool b => exact hscalar rfl (by simp [IsStray, truthy])
  | int n => exact hscalar rfl (by simp [IsStray, truthy])
  | float y => exact hscalar rfl (by simp [IsStray, truthy])

/-- The faults of a list of parts, given what parts are and where reading one stops. -/
theorem readList_eq_notIterable (hc : ∀ w, complaint w ≠ .notIterable x)
    (hpart : ∀ item ∈ v.items, (∃ a, read item = .ok a) ↔ Part item)
    (hstops : ∀ item ∈ v.items, read item = .error (.notIterable x) ↔ Stops item) :
    readList read complaint v = .error (.notIterable x) ↔ x.StopsList Part Stops v := by
  unfold readList
  split
  · next items =>
    rw [mapM_eq_error]
    constructor
    · rintro ⟨before, item, after, rfl, hbefore, hitem⟩
      refine .item (fun w hw => ?_) ((hstops item (by simp [Json.items])).mp hitem)
      exact (hpart w (by simp [Json.items, hw])).mp (hbefore w hw)
    · rintro (⟨⟨⟩⟩ | ⟨hbefore, hitem⟩)
      refine ⟨_, _, _, rfl, fun w hw => ?_, (hstops _ (by simp [Json.items])).mpr hitem⟩
      exact (hpart w (by simp [Json.items, hw])).mpr (hbefore w hw)
  · next hn =>
    rw [noElements_eq_notIterable hc hn]
    constructor
    · rintro ⟨rfl, hx⟩
      exact .here hx
    · rintro (hx | ⟨_, _⟩)
      · exact ⟨rfl, hx⟩
      · exact (hn _ rfl).elim

end

/-- Whatever a value is to be read as, reading it stops at the stray values that it should. -/
structure Json.StopsByFormat (v : Json) : Prop where
  block : ∀ x, Block.ofJson v = .error (.notIterable x) ↔ x.StopsBlock v
  content : ∀ x, Content.ofJson v = .error (.notIterable x) ↔ x.StopsContent v
  arg : ∀ x, Arg.ofJson v = .error (.notIterable x) ↔ x.StopsArg v
  args : ∀ type x, Args.ofJson type v = .error (.notIterable x) ↔ x.StopsArgs type v

section

variable {fields : List (String × Json)} {x : Json}
  (h : ∀ name, (fieldOrNull fields name).StopsByFormat ∧
    ∀ item ∈ (fieldOrNull fields name).items, item.StopsByFormat)
include h

theorem readContents_eq_notIterable :
    readList Content.ofJson .notContent (fieldOrNull fields "contents") =
      .error (.notIterable x) ↔
        x.StopsList IsContent x.StopsContent (fieldOrNull fields "contents") :=
  readList_eq_notIterable (by simp) (fun item _ => item.readsByFormat.content)
    fun item hi => ((h "contents").2 item hi).content x

theorem ofJson_block_eq_notIterable :
    Block.ofJson (.obj fields) = .error (.notIterable x) ↔ x.StopsBlock (.obj fields) := by
  rw [Block.ofJson]
  split
  · next type ht =>
    simp only [Args.ofFields_eq, Content.listOfFields_eq, bind_pure_comp, bind_eq_error,
      map_eq_error, readContents_eq_notIterable h, (h "args").1.args]
    constructor
    · rintro (hargs | ⟨args, ha, hcontents⟩)
      · exact .args ht hargs
      · exact .contents ht (((fieldOrNull fields "args").readsByFormat.args type).mp ⟨args, ha⟩)
          hcontents
    · rintro (⟨ht', hargs⟩ | ⟨ht', hargs, hcontents⟩)
      · obtain rfl : type = _ := by simpa [ht] using ht'
        exact .inl hargs
      · obtain rfl : type = _ := by simpa [ht] using ht'
        obtain ⟨args, ha⟩ := ((fieldOrNull fields "args").readsByFormat.args type).mpr hargs
        exact .inr ⟨args, ha, hcontents⟩
  · next hn =>
    refine iff_of_false (by rintro ⟨⟩) ?_
    rintro (⟨ht, _⟩ | ⟨ht, _⟩) <;> exact hn _ ht

theorem ofJson_content_eq_notIterable :
    Content.ofJson (.obj fields) = .error (.notIterable x) ↔
      x.StopsContent (.obj fields) := by
  rw [Content.ofJson_obj, Content.listOfFields_eq]
  split
  · next ht =>
    rw [map_eq_error, ofJson_block_eq_notIterable h]
    refine ⟨.block ht, ?_⟩
    rintro (⟨_, hblock⟩ | ⟨hf, _⟩)
    · exact hblock
    · simp [ht] at hf
  · next ht =>
    rw [map_eq_error, readContents_eq_notIterable h]
    refine ⟨.body (by simpa using ht), ?_⟩
    rintro (⟨hf, _⟩ | ⟨_, hcontents⟩)
    · exact (ht hf).elim
    · exact hcontents

theorem ofJson_arg_eq_notIterable :
    Arg.ofJson (.obj fields) = .error (.notIterable x) ↔ x.StopsArg (.obj fields) := by
  have hvalue : readList Block.ofJson .notABlock (fieldOrNull fields "value") =
      .error (.notIterable x) ↔
        x.StopsList IsBlock x.StopsBlock (fieldOrNull fields "value") :=
    readList_eq_notIterable (by simp) (fun item _ => item.readsByFormat.block)
      fun item hi => ((h "value").2 item hi).block x
  have hstops : x.StopsArg (.obj fields) ↔ fieldOrNull fields "type" = .str "block" ∧
      x.StopsList IsBlock x.StopsBlock (fieldOrNull fields "value") := by
    rw [fieldOrNull_eq_str]
    constructor
    · rintro ⟨ht, hv⟩
      exact ⟨ht, hv⟩
    · rintro ⟨ht, hv⟩
      exact .block ht hv
  rw [hstops, Arg.ofJson]
  split
  · next ht => simp [ht]
  · next ht => simp [ht, Block.listOfFields_eq, map_eq_error, hvalue]
  · next hn =>
    refine iff_of_false (by rintro ⟨⟩) ?_
    rintro ⟨ht, _⟩
    exact hn ht

theorem ofJson_objectArgs_eq_notIterable (type : String) :
    Args.ofJson type (.obj fields) = .error (.notIterable x) ↔
      x.StopsArgs type (.obj fields) := by
  have hvalues : readList Arg.ofJson .notAnArgument (fieldOrNull fields "service_call_values") =
      .error (.notIterable x) ↔
        x.StopsList IsArg x.StopsArg (fieldOrNull fields "service_call_values") :=
    readList_eq_notIterable (by simp) (fun item _ => item.readsByFormat.arg)
      fun item hi => ((h "service_call_values").2 item hi).arg x
  rw [Args.ofJson]
  split
  · next ht =>
    subst ht
    simp only [Arg.listOfFields_eq, bind_pure_comp, map_eq_error, hvalues]
    refine ⟨.call, ?_⟩
    rintro (_ | hv)
    exact hv
  · next ht =>
    refine iff_of_false (by rintro ⟨⟩) ?_
    rintro ⟨_⟩
    exact ht rfl

end

theorem ofJson_listArgs_eq_notIterable {items : List Json} {x : Json}
    (h : ∀ item ∈ items, item.StopsByFormat) (type : String) :
    Args.ofJson type (.arr items) = .error (.notIterable x) ↔
      x.StopsArgs type (.arr items) := by
  simp only [Args.ofJson, Arg.listOfItems_eq, bind_pure_comp, map_eq_error, mapM_eq_error]
  constructor
  · rintro ⟨before, item, after, rfl, hbefore, hitem⟩
    refine .list (fun w hw => ?_) (((h item (by simp)).arg x).mp hitem)
    exact w.readsByFormat.arg.mp (hbefore w hw)
  · rintro ⟨hbefore, hitem⟩
    refine ⟨_, _, _, rfl, fun w hw => ?_, ((h _ (by simp)).arg x).mpr hitem⟩
    exact w.readsByFormat.arg.mpr (hbefore w hw)

theorem Json.stopsByFormat (v : Json) : v.StopsByFormat := by
  induction v using Json.induction_within with | step v hitems hfields =>
  cases v with
  | obj fields =>
    have h := hfields fields rfl
    exact ⟨fun _ => ofJson_block_eq_notIterable h, fun _ => ofJson_content_eq_notIterable h,
      fun _ => ofJson_arg_eq_notIterable h, fun type _ => ofJson_objectArgs_eq_notIterable h type⟩
  | arr items =>
    refine ⟨?_, ?_, ?_, fun type _ => ofJson_listArgs_eq_notIterable hitems type⟩ <;>
      exact fun _ => iff_of_false (by rintro ⟨⟩) (by rintro ⟨⟩)
  | _ =>
    refine ⟨?_, ?_, ?_, fun type => ?_⟩ <;>
      exact fun _ => iff_of_false (by rintro ⟨⟩) (by rintro ⟨⟩)

theorem Graph.ofJson_eq_notIterable {d x : Json} :
    Graph.ofJson d = .error (.notIterable x) ↔ x.StopsGraph d := by
  cases d with
  | arr items =>
    rw [Graph.ofJson, Block.listOfItems_eq, mapM_eq_error]
    constructor
    · rintro ⟨before, item, after, rfl, hbefore, hitem⟩
      refine .block (fun w hw => ?_) ((item.stopsByFormat.block x).mp hitem)
      exact w.readsByFormat.block.mp (hbefore w hw)
    · rintro ⟨hbefore, hitem⟩
      refine ⟨_, _, _, rfl, fun w hw => ?_, (Json.stopsByFormat _).block x |>.mpr hitem⟩
      exact w.readsByFormat.block.mpr (hbefore w hw)
  | _ => exact iff_of_false (by rintro ⟨⟩) (by rintro ⟨⟩)

/-! ### Documents in files -/

/-- A graph, or an array of graphs where a list is asked for. -/
inductive Json.IsDocument : Bool → Json → Prop
  | single {d : Json} (h : IsGraph d) : IsDocument false d
  | collection {graphs : List Json} (h : ∀ d ∈ graphs, IsGraph d) : IsDocument true (.arr graphs)

/-- The first fault of a document is the stray value `x`. -/
inductive Json.StopsDocument (x : Json) : Bool → Json → Prop
  | single {d : Json} (h : StopsGraph x d) : StopsDocument x false d
  | collection {before : List Json} {d : Json} {after : List Json}
      (hbefore : ∀ d ∈ before, IsGraph d) (h : StopsGraph x d) :
    StopsDocument x true (.arr (before ++ d :: after))

namespace Cli

/-- A job started at a desk ends with a result and leaves this desk behind. -/
def Job.Ends {α : Type} (job : Job α) (desk : Desk) (result : Except JobError α) (left : Desk) :
    Prop :=
  (job.run.run desk).run = (result, left)

/-- What loading makes of the value at a path. -/
def documentOf (path : String) (d : Json) : Bool → Except JobError GraphDocument
  | false => (GraphDocument.single <$> Graph.ofJson d).mapError (.invalidGraph path)
  | true =>
    match d with
    | .arr graphs =>
      (GraphDocument.collection <$> graphs.mapM Graph.ofJson).mapError (.invalidGraph path)
    | _ => .error (.notAList path)

section

variable {files : Files} {path text : String} {d : Json} {list : Bool} {desk : Desk}

theorem mapError_map_eq_ok {α β ε ε' : Type} {x : Except ε α} {f : α → β} {wrap : ε → ε'} {b : β} :
    (f <$> x).mapError wrap = .ok b ↔ ∃ a, x = .ok a ∧ f a = b := by
  cases x <;> simp [Functor.map, Except.map, Except.mapError]

theorem mapError_map_eq_error {α β ε ε' : Type} {x : Except ε α} {f : α → β} {wrap : ε → ε'}
    {e : ε'} : (f <$> x).mapError wrap = .error e ↔ ∃ e', x = .error e' ∧ wrap e' = e := by
  cases x <;> simp [Functor.map, Except.map, Except.mapError]

theorem loadGraphs_ends (hr : files.read path = .ok text) (hd : Json.read text = .ok d) :
    (Job.loadGraphs files list (some path)).Ends desk (documentOf path d list) desk := by
  have hjson : Job.loadJson files path = pure d := by
    simp [Job.loadJson, hr, hd, Job.ofExcept]
  have hload : Job.loadGraphs files list (some path) =
      ExceptT.mk (pure (documentOf path d list)) := by
    cases list with
    | false =>
      simp only [Job.loadGraphs, Job.inputPath, hjson, documentOf, pure_bind]
      cases Graph.ofJson d <;> rfl
    | true =>
      simp only [Job.loadGraphs, Job.inputPath, hjson, documentOf, pure_bind]
      cases d with
      | arr graphs => cases hg : graphs.mapM Graph.ofJson <;> simp [hg] <;> rfl
      | _ => rfl
  rw [hload]
  rfl

theorem exists_documentOf_iff (path : String) :
    (∃ doc, documentOf path d list = .ok doc) ↔ d.IsDocument list := by
  have hgraph (d : Json) : (∃ g, Graph.ofJson d = .ok g) ↔ d.IsGraph :=
    ⟨exists_imp.mpr fun _ => isGraph_of_ofJson, IsGraph.reads⟩
  cases list with
  | false =>
    simp only [documentOf, mapError_map_eq_ok]
    constructor
    · rintro ⟨_, g, hg, rfl⟩
      exact .single ((hgraph d).mp ⟨g, hg⟩)
    · rintro ⟨h⟩
      obtain ⟨g, hg⟩ := (hgraph d).mpr h
      exact ⟨_, g, hg, rfl⟩
  | true =>
    cases d with
    | arr graphs =>
      have hgraphs := exists_mapM_ok_iff fun d (_ : d ∈ graphs) => hgraph d
      simp only [documentOf, mapError_map_eq_ok]
      constructor
      · rintro ⟨_, gs, hg, rfl⟩
        exact .collection (hgraphs.mp ⟨gs, hg⟩)
      · rintro (_ | h)
        obtain ⟨gs, hg⟩ := hgraphs.mpr h
        exact ⟨_, gs, hg, rfl⟩
    | _ => exact iff_of_false (by rintro ⟨_, ⟨⟩⟩) (by rintro ⟨⟩)

theorem documentOf_eq_notIterable {x : Json} (path : String) :
    documentOf path d list = .error (.invalidGraph path (.notIterable x)) ↔
      x.StopsDocument list d := by
  cases list with
  | false =>
    simp only [documentOf, mapError_map_eq_error]
    constructor
    · rintro ⟨_, hg, ⟨⟩⟩
      exact .single (Graph.ofJson_eq_notIterable.mp hg)
    · rintro ⟨h⟩
      exact ⟨_, Graph.ofJson_eq_notIterable.mpr h, rfl⟩
  | true =>
    cases d with
    | arr graphs =>
      simp only [documentOf, mapError_map_eq_error]
      constructor
      · rintro ⟨_, hg, ⟨⟩⟩
        obtain ⟨before, d, after, rfl, hbefore, hd⟩ := mapM_eq_error.mp hg
        refine .collection (fun w hw => ?_) (Graph.ofJson_eq_notIterable.mp hd)
        obtain ⟨_, hg⟩ := hbefore w hw
        exact isGraph_of_ofJson hg
      · rintro (_ | ⟨hbefore, hd⟩)
        refine ⟨_, mapM_eq_error.mpr ⟨_, _, _, rfl, ?_, Graph.ofJson_eq_notIterable.mpr hd⟩, rfl⟩
        exact fun w hw => (hbefore w hw).reads
    | _ => exact iff_of_false (by rintro ⟨⟩) (by rintro ⟨⟩)

/-- A fault is told as one of the document at its path, unless it is a stray value. -/
theorem documentOf_cases (path : String) (d : Json) (list : Bool) :
    (∃ doc, documentOf path d list = .ok doc) ∨
      (∃ x, documentOf path d list = .error (.invalidGraph path (.notIterable x))) ∨
      ∃ e reason, documentOf path d list = .error e ∧
        e.expected? = some ("Invalid compiled graph in " ++ path ++ ": " ++ reason) := by
  cases hdoc : documentOf path d list with
  | ok doc => exact .inl ⟨doc, rfl⟩
  | error e =>
    right
    have hfault : e = .notAList path ∨ ∃ fault, .invalidGraph path fault = e := by
      unfold documentOf at hdoc
      split at hdoc
      · obtain ⟨fault, _, he⟩ := mapError_map_eq_error.mp hdoc
        exact .inr ⟨fault, he⟩
      · split at hdoc
        · obtain ⟨fault, _, he⟩ := mapError_map_eq_error.mp hdoc
          exact .inr ⟨fault, he⟩
        · cases hdoc
          exact .inl rfl
    rcases hfault with rfl | ⟨fault, rfl⟩
    · refine .inr ⟨_, "Expected a JSON array of graphs", rfl, ?_⟩
      simp [JobError.expected?, String.append_assoc]
    · cases fault with
      | notIterable x => exact .inl ⟨x, rfl⟩
      | _ => exact .inr ⟨_, _, rfl, rfl⟩

end

end Cli

open Cli

/-- Reading stops at a stray value exactly if it is the first fault of a document. A document in a
file is then an unexpected failure, while any other malformed document is told as an invalid
graph. -/
theorem malformed_reported_iff (d : Json) :
    (∀ x, Graph.ofJson d = .error (.notIterable x) ↔ x.StopsGraph d) ∧
    ∀ (files : Files) (path text : String) (list : Bool) (desk : Desk),
      files.read path = .ok text → Json.read text = .ok d →
      ∃ result, (Job.loadGraphs files list (some path)).Ends desk result desk ∧
        ((∃ doc, result = .ok doc) ↔ d.IsDocument list) ∧
        ((∃ e reason, result = .error e ∧
            e.expected? = some ("Invalid compiled graph in " ++ path ++ ": " ++ reason)) ↔
          ¬ d.IsDocument list ∧ ∀ x : Json, ¬ x.StopsDocument list d) ∧
        ((∃ e, result = .error e ∧ e.expected? = none) ↔
          ∃ x : Json, x.StopsDocument list d) := by
  refine ⟨fun x => Graph.ofJson_eq_notIterable, ?_⟩
  intro files path text list desk hr hd
  refine ⟨documentOf path d list, loadGraphs_ends hr hd, exists_documentOf_iff path, ?_⟩
  simp only [← exists_documentOf_iff path, ← documentOf_eq_notIterable path]
  rcases documentOf_cases path d list with ⟨doc, hdoc⟩ | ⟨x, hdoc⟩ | ⟨e, reason, hdoc, he⟩
  · simp [hdoc]
  · simp [hdoc, JobError.expected?]
  · have hne (x : Json) : e ≠ .invalidGraph path (.notIterable x) := by
      rintro rfl
      cases he
    simp [hdoc, he, hne]

/-- A number where a list of contents belongs, inside an argument, and no block behind it. -/
def strayContents : Json :=
  .arr [.obj [("type", .str "op_log_value"), ("args", .arr [.obj [("type", .str "block"),
    ("value", .arr [.obj [("type", .str "x"), ("contents", .int 5)]])]])], .null]

def strayFiles : Files where
  read _ := .ok "[\x7b\"type\": \"op_log_value\", \"args\": [\x7b\"type\": \"block\",
    \"value\": [\x7b\"type\": \"x\", \"contents\": 5\x7d]\x7d]\x7d, null]"
  refusal _ := none

def emptyDesk : Desk := ⟨labelledWorkspace "b", "", []⟩

theorem strayContents_unreported :
    (Json.int 5).StopsGraph strayContents ∧ ∃ e,
      (Job.loadGraphs strayFiles false (some "graph.json")).Ends emptyDesk (.error e) emptyDesk ∧
        e.expected? = none := by
  obtain ⟨hstops, hload⟩ := malformed_reported_iff strayContents
  have hx : (Json.int 5).StopsGraph strayContents := (hstops _).mp rfl
  obtain ⟨result, hends, _, _, hstray⟩ := hload strayFiles "graph.json" _ false emptyDesk rfl rfl
  obtain ⟨e, rfl, he⟩ := hstray.mpr ⟨_, .single hx⟩
  exact ⟨hx, e, hends, he⟩

end BlockFlow
