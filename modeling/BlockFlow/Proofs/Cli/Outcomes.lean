import Mathlib
import BlockFlow.Cli.Run
import BlockFlow.Proofs.Graph.Malformed
import BlockFlow.Proofs.Json.Faithful
import BlockFlow.Proofs.Triples

/-! What the commands leave behind. A command writes its whole result in one place, or it fails and
writes nothing. -/

namespace BlockFlow

namespace Cli

/-! ### What should be left behind -/

/-- What a command does to the world: its exit status, what it prints and what it writes. -/
structure Effect where
  exit : Nat
  stdout : String
  written : List (String × String)
deriving DecidableEq

/-- A failure leaves nothing behind. -/
def Effect.failure : Effect := ⟨1, "", []⟩

/-- The text of a result, and the exit status once it is written. -/
structure Product where
  text : String
  status : Nat

/-- The path that a text is written to, or none for standard output. -/
def destination? (output : Option String) : Option String := output.filter (· ≠ "")

/-- What is left behind when a result, if there is one, is written to its destination. -/
def delivery (files : Files) (output : Option String) : Option Product → Effect
  | none => .failure
  | some product =>
    match destination? output with
    | none => ⟨product.status, product.text ++ "\n", []⟩
    | some path =>
      match files.refusal path with
      | some _ => .failure
      | none => ⟨product.status, "", [(path, product.text ++ "\n")]⟩

def Outcome.effect (o : Outcome) : Effect := ⟨o.exit, o.stdout, o.written⟩

namespace Surroundings

variable (s : Surroundings)

/-- The value in the file of an input. -/
def value? (input : Option String) : Option Json := do
  let text ← (s.files.read (← input)).toOption
  (Json.read text).toOption

/-- The graph or the graphs in the file of an input. -/
def graphs? (list : Bool) (input : Option String) : Option GraphDocument := do
  let value ← s.value? input
  (documentOf (← input) value list).toOption

/-- The result of compiling a program with new ids. A graph that the schema rejects is a result, but
no success. -/
def compiledWith? (r : CompileRequest) (program : Json) (strategy : IdStrategy) :
    Option Product := do
  let g ← compiledGraph? s.settings.minForkPaths (.start s.random strategy) r.link program
  let warnings := (lowerProgram s.settings.minForkPaths .top program).trace
  let issues := if r.validate then FlowGraphSchema.document.issues g.toJson else []
  let findings := issues.map SchemaIssue.finding
  let wrapped := Output.compiled s.now g (Report.empty.warned warnings) findings
  return ⟨Job.resultText r.report wrapped g.toJson, if findings.isEmpty then 0 else 1⟩

/-- The result of a compilation. -/
def compiled? (r : CompileRequest) : Option Product := do
  let program ← s.value? r.input
  let strategy ← (s.settings.idStrategy r.idStrategy none).toOption
  s.compiledWith? r program strategy

/-- The strictness that a request asks for, or the one that is configured. -/
def strictness (r : CanonicalizeRequest) : Bool := r.strict || s.settings.strictCanonicalization

/-- The result of a canonicalization. -/
def canonicalized? (r : CanonicalizeRequest) : Option Product := do
  let doc ← s.graphs? r.list r.input
  let form ← (doc.canonical (s.strictness r)).result
  let warnings := (doc.canonical (s.strictness r)).trace
  let wrapped := Output.canonical s.now form (Report.empty.warned warnings)
  return ⟨Job.resultText r.report wrapped form.toJson, 0⟩

/-- The canonical form of an input of a comparison, as one text. -/
def formText? (list : Bool) (input : Option String) : Option String := do
  let doc ← s.graphs? list input
  (doc.canonical s.settings.strictCanonicalization).result.map (·.toJson.stableText)

/-- Both inputs of a comparison have a canonical form, and the forms have the same text. -/
def Equal (r : EqualsRequest) : Prop :=
  ∃ text, s.formText? r.list r.left = some text ∧ s.formText? r.list r.right = some text

variable {s} {r : EqualsRequest}

theorem formText?_eq {list : Bool} {input : Option String} {doc : GraphDocument}
    (h : s.graphs? list input = some doc) :
    s.formText? list input = (doc.canonical s.settings.strictCanonicalization).result.map
      (·.toJson.stableText) := by
  rw [formText?, h]
  rfl

/-- The canonical text of a file, stage by stage. -/
theorem formText?_of_read {path text : String} (v : Json) (doc form : GraphDocument)
    (hfile : s.files.read path = .ok text) (hread : Json.read text = .ok v)
    (hdoc : documentOf path v false = .ok doc)
    (hform : (doc.canonical s.settings.strictCanonicalization).result = some form) :
    s.formText? false (some path) = some form.toJson.stableText := by
  have hvalue : s.value? (some path) = some v := by
    simp [value?, hfile, hread, Except.toOption]
  have hgraphs : s.graphs? false (some path) = some doc := by
    simp [graphs?, hvalue, hdoc, Except.toOption]
  rw [formText?_eq hgraphs, hform, Option.map_some]

theorem not_equal_of_left (h : s.formText? r.list r.left = none) : ¬ s.Equal r := by
  rintro ⟨text, htext, -⟩
  cases h.symm.trans htext

theorem not_equal_of_right (h : s.formText? r.list r.right = none) : ¬ s.Equal r := by
  rintro ⟨text, -, htext⟩
  cases h.symm.trans htext

end Surroundings

/-! ### Jobs -/

namespace Desk

def addLog (d : Desk) (entry : Log.Entry) : Desk :=
  { d with workspace := d.workspace.addLog entry }

/-- What holds of a desk whatever is logged. -/
def Unlogged (P : Desk → Prop) : Prop := ∀ d entry, P d → P (d.addLog entry)

/-- A desk at which nothing was written yet. -/
def Blank (P : Workspace → Prop) (d : Desk) : Prop :=
  P d.workspace ∧ d.stdout = "" ∧ d.written = []

/-- What has been done at a desk, once the job is over. -/
def effect (exit : Nat) (d : Desk) : Effect := ⟨exit, d.stdout, d.written⟩

theorem unlogged_blank {P : Workspace → Prop} (h : ∀ w entry, P w → P (w.addLog entry)) :
    Unlogged (Blank P) :=
  fun _ _ hd => ⟨h _ _ hd.1, hd.2⟩

theorem Blank.effect_failure {P : Workspace → Prop} {d : Desk} (h : d.Blank P) :
    d.effect 1 = .failure := by
  rw [effect, h.2.1, h.2.2]
  rfl

end Desk

namespace Job

variable {α β : Type} {P E : Desk → Prop}

theorem triple_ofWork {x : Work α} {P E : Workspace → Prop} {Q : α → Workspace → Prop}
    (h : Triple P x Q E) :
    Triple (Desk.Blank P) (ofWork x) (fun a => Desk.Blank (Q a)) (Desk.Blank E) := by
  refine (triple_get (Q := fun desk _ => Desk.Blank P desk) fun _ => id).bind fun desk => ?_
  intro d hdesk
  have hend := h desk.workspace hdesk.1
  rcases hrun : x.run.run desk.workspace with ⟨e | a, w⟩
  · rw [hrun] at hend
    exact ⟨hend, hdesk.2⟩
  · rw [hrun] at hend
    exact ⟨hend, hdesk.2⟩

/-- A job that reads what can be found, and changes nothing. -/
def Reads (x : Job α) (found : Option α) : Prop :=
  ∀ P : Desk → Prop, Triple P x (fun a d => found = some a ∧ P d) (fun d => found = none ∧ P d)

theorem reads_ofExcept {ε : Type} (wrap : ε → JobError) (x : Except ε α) :
    (ofExcept wrap x).Reads x.toOption := by
  intro P
  cases x with
  | ok a => exact triple_pure fun _ h => ⟨rfl, h⟩
  | error e => exact triple_throw fun _ h => ⟨rfl, h⟩

theorem reads_inputPath (input : Option String) : (inputPath input).Reads input := by
  intro P
  cases input with
  | none => exact triple_throw fun _ h => ⟨rfl, h⟩
  | some path => exact triple_pure fun _ h => ⟨rfl, h⟩

/-- A job that starts with reading something. -/
theorem Reads.andThen {x : Job α} {f : α → Job β} {found : Option α} {Q : β → Desk → Prop}
    (hx : x.Reads found) (hnone : found = none → ∀ d, P d → E d)
    (hf : ∀ a, found = some a → Triple P (f a) Q E) : Triple P (x >>= f) Q E :=
  (hx P).bind_of_fails (fun d h => hnone h.1 d h.2) fun a => triple_of_fact (hf a)

theorem Reads.bind {x : Job α} {f : α → Job β} {found : Option α} {next : α → Option β}
    (hx : x.Reads found) (hf : ∀ a, (f a).Reads (next a)) :
    (x >>= f).Reads (found.bind next) := by
  intro P
  refine hx.andThen (fun h d hd => ⟨by rw [h]; rfl, hd⟩) fun a ha => ?_
  rw [ha]
  exact hf a P

theorem reads_loadJson (files : Files) (path : String) :
    (loadJson files path).Reads
      ((files.read path).toOption.bind fun text => (Json.read text).toOption) :=
  (reads_ofExcept _ _).bind fun _ => reads_ofExcept _ _

/-- Reading a document in two steps. -/
theorem reads_document {γ : Type} {path : String} {read : Except GraphError γ}
    {wrap : γ → GraphDocument} :
    Reads (do return wrap (← ofExcept (.invalidGraph path) read))
      ((wrap <$> read).mapError (JobError.invalidGraph path)).toOption := by
  cases read with
  | ok a => exact fun P => triple_pure fun _ h => ⟨rfl, h⟩
  | error e => exact fun P => triple_throw fun _ h => ⟨rfl, h⟩

theorem reads_loadGraphs (s : Surroundings) (list : Bool) (input : Option String) :
    (loadGraphs s.files list input).Reads (s.graphs? list input) := by
  have hgraphs : s.graphs? list input = input.bind fun path =>
      ((s.files.read path).toOption.bind fun text => (Json.read text).toOption).bind fun v =>
        (documentOf path v list).toOption := by
    cases input <;> rfl
  rw [hgraphs]
  refine (reads_inputPath input).bind fun path => (reads_loadJson s.files path).bind fun v => ?_
  cases list with
  | false => exact reads_document
  | true =>
    cases v with
    | arr graphs => exact reads_document
    | _ => exact fun P => triple_throw fun _ h => ⟨rfl, h⟩

/-- A job that gives a result and does nothing but log. -/
def Gives (x : Job α) (a : α) : Prop :=
  ∀ P E, Desk.Unlogged P → Triple P x (fun b d => b = a ∧ P d) E

theorem gives_pure (a : α) : (pure a : Job α).Gives a :=
  fun _ _ _ => triple_pure fun _ h => ⟨rfl, h⟩

theorem gives_log (level : Log.Level) (message : String) : (log level message).Gives () :=
  fun _ _ hP d hd => ⟨rfl, hP d _ hd⟩

theorem Gives.andThen {x : Job α} {f : α → Job β} {a : α} {Q : β → Desk → Prop} (hx : x.Gives a)
    (hP : Desk.Unlogged P) (hf : Triple P (f a) Q E) : Triple P (x >>= f) Q E := by
  refine (hx P E hP).bind fun b => triple_of_fact fun hb => ?_
  rw [hb]
  exact hf

theorem Gives.bind {x : Job α} {f : α → Job β} {a : α} {b : β} (hx : x.Gives a)
    (hf : (f a).Gives b) : (x >>= f).Gives b :=
  fun P E hP => hx.andThen hP (hf P E hP)

theorem gives_forM {xs : List α} {f : α → Job PUnit} (hf : ∀ a, (f a).Gives ()) :
    (xs.forM f).Gives () := by
  induction xs with
  | nil => exact gives_pure _
  | cons x xs ih => exact (hf x).bind ih

theorem gives_logWarnings : logWarnings.Gives () := by
  intro P E hP
  refine Triple.bind (x := report) (R := fun _ => P) (fun _ => id) fun r => ?_
  dsimp only
  split
  · exact gives_pure () P E hP
  · exact ((gives_log _ _).bind (gives_forM fun d => gives_log _ _)) P E hP

theorem Gives.triple_of_unlogged {x : Job α} {a : α} (hx : x.Gives a) (hP : Desk.Unlogged P) :
    Triple P x (fun _ => P) E :=
  (hx P E hP).mono (fun _ _ h => h.2) fun _ => id

/-- What is done at a desk whose texts are these. -/
theorem Gives.triple_effect {x : Job Nat} {status : Nat} (hx : x.Gives status) (stdout : String)
    (written : List (String × String)) :
    Triple (fun d => d.stdout = stdout ∧ d.written = written) x
      (fun exit d => d.effect exit = ⟨status, stdout, written⟩) E := by
  refine (hx (fun d => d.stdout = stdout ∧ d.written = written) E fun _ _ => id).mono ?_ fun _ => id
  rintro _ d ⟨rfl, rfl, rfl⟩
  rfl

section

variable {files : Files} {output : Option String} {text path : String}

theorem save_stdout (h : destination? output = none) :
    save files output text =
      modify fun desk => { desk with stdout := desk.stdout ++ text ++ "\n" } := by
  unfold save
  split
  · rfl
  · rfl
  · next path hne =>
    rw [destination?, Option.filter_some, if_pos (by simpa using hne)] at h
    cases h

theorem save_path (h : destination? output = some path) (hr : files.refusal path = none) :
    save files output text = ((modify fun desk =>
      { desk with written := desk.written ++ [(path, text ++ "\n")] }) >>= fun _ =>
        log Log.Level.info ("Output saved to: " ++ path)) := by
  unfold save
  split
  · cases h
  · cases h
  · next found hne =>
    rw [destination?, Option.filter_some, if_pos (by simpa using hne)] at h
    rw [Option.some.inj h, hr]

theorem save_refused {e : FileError} (h : destination? output = some path)
    (hr : files.refusal path = some e) : save files output text = throw (.unwritable e) := by
  unfold save
  split
  · cases h
  · cases h
  · next found hne =>
    rw [destination?, Option.filter_some, if_pos (by simpa using hne)] at h
    rw [Option.some.inj h, hr]

end

/-- A job that makes a result, if it can be made, and writes it. -/
def Delivers (files : Files) (output : Option String) (P : Workspace → Prop) (x : Job Nat)
    (made : Option Product) : Prop :=
  Triple (Desk.Blank P) x (fun status d => d.effect status = delivery files output made)
    (fun d => d.effect 1 = delivery files output made)

section

variable {files : Files} {output : Option String} {P : Workspace → Prop}

/-- A part of the work comes before the rest, and without its result there is none of the whole. -/
theorem delivers_bind {x : Job α} {f : α → Job Nat} {part : Option β} {rest : β → Option Product}
    {R : β → α → Workspace → Prop}
    (hx : Triple (Desk.Blank P) x (fun a => Desk.Blank fun w => ∃ b, part = some b ∧ R b a w)
      (Desk.Blank fun _ => part = none))
    (hf : ∀ b a, Delivers files output (R b a) (f a) (rest b)) :
    Delivers files output P (x >>= f) (part.bind rest) := by
  refine Triple.bind_of_fails hx ?_ ?_
  · intro d hd
    rw [hd.1]
    exact hd.effect_failure
  · rintro a d ⟨⟨b, hb, hr⟩, hd⟩
    rw [hb]
    exact hf b a d ⟨hr, hd⟩

/-- The result of the part is what the job hands on. -/
theorem delivers_result {x : Job α} {f : α → Job Nat} {part : Option α} {rest : α → Option Product}
    {R : α → Workspace → Prop}
    (hx : Triple (Desk.Blank P) x (fun a => Desk.Blank fun w => part = some a ∧ R a w)
      (Desk.Blank fun _ => part = none))
    (hf : ∀ a, Delivers files output (R a) (f a) (rest a)) :
    Delivers files output P (x >>= f) (part.bind rest) := by
  refine delivers_bind (R := fun b a w => b = a ∧ R a w) (hx.mono ?_ fun _ => id) ?_
  · exact fun a d hd => ⟨⟨a, hd.1.1, rfl, hd.1.2⟩, hd.2⟩
  · rintro _ a d ⟨⟨rfl, hr⟩, hd⟩
    exact hf _ d ⟨hr, hd⟩

theorem delivers_read {x : Job α} {f : α → Job Nat} {part : Option α} {rest : α → Option Product}
    (hx : x.Reads part) (hf : ∀ a, Delivers files output P (f a) (rest a)) :
    Delivers files output P (x >>= f) (part.bind rest) :=
  delivers_result ((hx _).mono (fun _ _ h => ⟨⟨h.1, h.2.1⟩, h.2.2⟩) fun _ h => ⟨h.1, h.2.2⟩) hf

theorem delivers_save {text : String} {status : Nat} {tail : Job Nat} (htail : tail.Gives status) :
    Delivers files output P (save files output text >>= fun _ => tail) (some ⟨text, status⟩) := by
  unfold Delivers delivery
  cases hpath : destination? output with
  | none =>
    rw [save_stdout hpath]
    refine (triple_modify fun d hd => ?_).bind fun _ => htail.triple_effect _ _
    exact ⟨by rw [hd.2.1, String.empty_append], hd.2.2⟩
  | some path =>
    dsimp only
    cases hrefusal : files.refusal path with
    | some e =>
      rw [save_refused hpath hrefusal]
      exact Triple.bind (R := fun _ _ => False) (triple_throw fun _ hd => hd.effect_failure)
        fun _ _ => False.elim
    | none =>
      rw [save_path hpath hrefusal]
      refine Triple.bind ((triple_modify fun d hd => ?_).bind fun _ =>
        (gives_log _ _).triple_of_unlogged fun _ _ => id) fun _ => htail.triple_effect _ _
      exact ⟨hd.2.1, by rw [hd.2.2]; rfl⟩

/-- A job that goes on with the report. -/
theorem delivers_report {report' : Report} {f : Report → Job Nat} {made : Option Product}
    (hf : Delivers files output (fun w => w.report = report') (f report') made) :
    Delivers files output (fun w => w.report = report') (report >>= f) made := by
  refine Triple.bind (R := fun found d => found = report' ∧ d.Blank fun w => w.report = report')
    (fun _ hd => ⟨hd.1, hd⟩) ?_
  rintro _ d ⟨rfl, hd⟩
  exact hf d hd

end

theorem delivers_compile (s : Surroundings) (r : CompileRequest) :
    Delivers s.files r.output s.desk.workspace.Like (compile s.files s.now r)
      (s.compiled? r) := by
  have hparts : s.compiled? r = r.input.bind fun path =>
      ((s.files.read path).toOption.bind fun text => (Json.read text).toOption).bind fun program =>
        (s.settings.idStrategy r.idStrategy none).toOption.bind fun strategy =>
          s.compiledWith? r program strategy := by
    rw [Surroundings.compiled?, Surroundings.value?]
    cases r.input <;> rfl
  rw [hparts]
  refine (gives_log _ _).andThen (Desk.unlogged_blank Work.like_addLog) ?_
  refine delivers_read (reads_inputPath r.input) fun path => ?_
  refine delivers_read (reads_loadJson s.files path) fun program => ?_
  refine delivers_bind (triple_ofWork (Work.triple_chooseIds r.idStrategy)) fun strategy _ => ?_
  refine delivers_result (triple_ofWork (Work.triple_compile r.link program)) fun g => ?_
  refine (gives_forM fun f => gives_log _ _).andThen (Desk.unlogged_blank fun _ _ => id) ?_
  refine delivers_report ?_
  refine delivers_save (gives_logWarnings.bind ?_)
  generalize List.map SchemaIssue.finding _ = findings
  cases findings.isEmpty with
  | true => exact (gives_log _ _).bind (gives_pure 0)
  | false => exact (gives_log _ _).bind (gives_pure 1)

theorem delivers_canonicalize (s : Surroundings) (r : CanonicalizeRequest) :
    Delivers s.files r.output s.desk.workspace.Like
      (canonicalize s.files s.now r) (s.canonicalized? r) := by
  have hstrict : (if r.strict then some true else none).getD s.settings.strictCanonicalization =
      s.strictness r := by
    rw [Surroundings.strictness]
    cases r.strict <;> rfl
  refine (gives_log _ _).andThen (Desk.unlogged_blank Work.like_addLog) ?_
  refine delivers_read (reads_loadGraphs s r.list r.input) fun doc => ?_
  rw [← hstrict]
  refine delivers_result (R := fun _ w => w.report = Report.empty.warned (doc.canonical _).trace)
    ((triple_ofWork (Work.triple_canonicalizeDocument _ doc)).mono
      (fun _ _ h => ⟨⟨h.1.1, h.1.2.report⟩, h.2⟩) fun _ => id) fun form => ?_
  exact delivers_report (delivers_save (gives_logWarnings.bind (gives_pure 0)))

/-- A canonical form of a document in the course of a job. -/
theorem triple_form {v : Workspace} (doc : GraphDocument) :
    Triple (Desk.Blank v.Like) (ofWork (Work.canonicalizeDocument none doc))
      (fun form d => (doc.canonical v.settings.strictCanonicalization).result = some form ∧
        d.Blank (v.warned (doc.canonical v.settings.strictCanonicalization).trace).Like)
      (Desk.Blank fun _ => (doc.canonical v.settings.strictCanonicalization).result = none) :=
  (triple_ofWork (Work.triple_canonicalizeDocument none doc)).mono
    (fun _ _ h => ⟨h.1.1, h.1.2, h.2⟩) fun _ => id

theorem triple_equals (s : Surroundings) (r : EqualsRequest) :
    Triple (Desk.Blank s.desk.workspace.Like) (equals s.files r)
      (fun status => Desk.Blank fun _ => (status = 0 ↔ s.Equal r) ∧ status ≤ 1)
      (Desk.Blank fun _ => (1 = 0 ↔ s.Equal r) ∧ 1 ≤ 1) := by
  have hfailed (h : ¬ s.Equal r) : (1 = 0 ↔ s.Equal r) ∧ 1 ≤ 1 :=
    ⟨iff_of_false (by decide) h, le_rfl⟩
  refine (reads_loadGraphs s r.list r.left).andThen (fun h d hd => ⟨hfailed ?_, hd.2⟩)
    fun left hleft => ?_
  · exact Surroundings.not_equal_of_left (by rw [Surroundings.formText?, h]; rfl)
  refine (reads_loadGraphs s r.list r.right).andThen (fun h d hd => ⟨hfailed ?_, hd.2⟩)
    fun right hright => ?_
  · exact Surroundings.not_equal_of_right (by rw [Surroundings.formText?, h]; rfl)
  refine (triple_form left).bind_of_fails (fun d hd => ⟨hfailed ?_, hd.2⟩) fun leftForm => ?_
  · refine Surroundings.not_equal_of_left ?_
    rw [Surroundings.formText?_eq hleft]
    exact congrArg _ hd.1
  refine triple_of_fact fun hleftForm => ?_
  refine (triple_form right).bind_of_fails (fun d hd => ⟨hfailed ?_, hd.2⟩) fun rightForm => ?_
  · refine Surroundings.not_equal_of_right ?_
    rw [Surroundings.formText?_eq hright]
    exact congrArg _ hd.1
  refine triple_of_fact fun hrightForm => ?_
  refine gives_logWarnings.andThen (Desk.unlogged_blank Work.like_addLog) ?_
  have hleftText : s.formText? r.list r.left = some leftForm.toJson.stableText :=
    (Surroundings.formText?_eq hleft).trans (congrArg _ hleftForm)
  have hrightText : s.formText? r.list r.right = some rightForm.toJson.stableText :=
    (Surroundings.formText?_eq hright).trans (congrArg _ hrightForm)
  have hequal : s.Equal r ↔ leftForm.toJson.stableText = rightForm.toJson.stableText := by
    rw [Surroundings.Equal, hleftText, hrightText]
    simp [eq_comm]
  split
  · next heq =>
    refine (gives_log _ _).andThen (Desk.unlogged_blank Work.like_addLog)
      (triple_pure fun _ hd => ?_)
    exact ⟨⟨iff_of_true rfl (hequal.mpr heq), by decide⟩, hd.2⟩
  · next hne =>
    refine (gives_log _ _).andThen (Desk.unlogged_blank Work.like_addLog)
      (triple_pure fun _ hd => ?_)
    exact ⟨hfailed (hne ∘ hequal.mp), hd.2⟩

/-- A failure is logged, and is an exit status then. -/
theorem triple_logged {x : Job Nat} {Q : Nat → Desk → Prop} (hx : Triple P x Q (Q 1))
    (hQ : Desk.Unlogged (Q 1)) : Triple P x.logged Q (fun _ => False) :=
  hx.tryCatch fun _ => (gives_log _ _).andThen hQ (triple_pure fun _ => id)

end Job

namespace Surroundings

/-- What a request leaves behind is what its job does. -/
theorem exists_desk (s : Surroundings) {r : Request} {Q : Nat → Desk → Prop}
    (h : Triple (Desk.Blank s.desk.workspace.Like) (Job.ofRequest s.files s.now r)
      Q (Q 1)) (hQ : Desk.Unlogged (Q 1)) :
    ∃ d, Q (s.perform r).exit d ∧ (s.perform r).effect = d.effect (s.perform r).exit := by
  have hend := Job.triple_logged h hQ s.desk ⟨⟨rfl, rfl, rfl⟩, rfl, rfl⟩
  rcases hrun : ((Job.ofRequest s.files s.now r).logged.run.run s.desk).run with
    ⟨e | status, d⟩ <;> rw [hrun] at hend
  · exact hend.elim
  · have hperform : s.perform r =
        ⟨status, d.stdout, s.console d.workspace.log, d.written⟩ := by
      have hrun : (Job.ofRequest s.files s.now r).logged.run.run s.desk =
        (.ok status, d) := hrun
      rw [perform, hrun]
    rw [hperform]
    exact ⟨d, hend, rfl⟩

end Surroundings

end Cli

open Cli

/-- Commands are atomic. Compiling and canonicalizing leave nothing but the exit status 1 behind if
some stage fails, and otherwise write the whole result once. Comparing writes nothing, and its exit
status is 0 exactly if both inputs have canonical forms with the same text. -/
theorem commands_atomic (s : Surroundings) (words : List String) :
    (∀ r, Invocation.read words = .request (.compile r) →
      (s.run words).effect = delivery s.files r.output (s.compiled? r)) ∧
    (∀ r, Invocation.read words = .request (.canonicalize r) →
      (s.run words).effect = delivery s.files r.output (s.canonicalized? r)) ∧
    ∀ r, Invocation.read words = .request (.equals r) →
      (s.run words).stdout = "" ∧ (s.run words).written = [] ∧ (s.run words).exit ≤ 1 ∧
        ((s.run words).exit = 0 ↔ s.Equal r) := by
  refine ⟨?_, ?_, ?_⟩ <;> intro r hr <;> rw [Surroundings.run, hr, Surroundings.answer]
  · obtain ⟨d, hd, heffect⟩ := s.exists_desk (r := .compile r) (Job.delivers_compile s r)
      fun _ _ => id
    exact heffect.trans hd
  · obtain ⟨d, hd, heffect⟩ := s.exists_desk (r := .canonicalize r) (Job.delivers_canonicalize s r)
      fun _ _ => id
    exact heffect.trans hd
  · obtain ⟨d, ⟨⟨hiff, hle⟩, hstdout, hwritten⟩, heffect⟩ :=
      s.exists_desk (r := .equals r) (Job.triple_equals s r) fun _ _ => id
    obtain ⟨-, hout, hfiles⟩ := Effect.mk.inj heffect
    exact ⟨hout.trans hstdout, hfiles.trans hwritten, hle, hiff⟩

/-- A program that is no list, one whose graph the schema rejects, a graph with an unknown
operation, the same graph with an id, and a document without blocks everywhere else. -/
def sparseFiles : Files where
  read path := .ok <|
    if path = "five.json" then "5"
    else if path = "blank.json" then "[[\"\"]]"
    else if path = "x.json" then "[\x7b\"type\":\"x\",\"args\":[],\"contents\":[]\x7d]"
    else if path = "named.json" then
      "[\x7b\"id\":\"n\",\"type\":\"x\",\"args\":[],\"contents\":[]\x7d]"
    else "[]"
  refusal _ := none

def sparseSurroundings : Surroundings :=
  ⟨sparseFiles, (labelledWorkspace "b").settings, false, 0, fun _ => ""⟩

/-- The graph in two of the files. -/
def unknownBlock (id : Json) : Graph := [.mk id "x" (.list []) []]

theorem unknownBlock_text_ne :
    (Graph.toJson (unknownBlock .null)).stableText ≠ (Graph.toJson []).stableText := by
  intro h
  have hsorted := Json.sorted_eq_of_stableText h
  simp [Graph.toJson, unknownBlock, Block.listToJson, Json.sorted_arr] at hsorted

theorem formText?_x : sparseSurroundings.formText? false (some "x.json") =
    some (Graph.toJson (unknownBlock .null)).stableText :=
  Surroundings.formText?_of_read (unknownBlock .null).toJson (.single (unknownBlock .null))
    (.single (unknownBlock .null)) rfl rfl rfl rfl

theorem formText?_named : sparseSurroundings.formText? false (some "named.json") =
    some (Graph.toJson (unknownBlock .null)).stableText :=
  Surroundings.formText?_of_read (unknownBlock (.str "n")).toJson
    (.single (unknownBlock (.str "n"))) (.single (unknownBlock .null)) rfl rfl rfl rfl

theorem formText?_empty {path : String} (h : sparseFiles.read path = .ok "[]") :
    sparseSurroundings.formText? false (some path) = some (Graph.toJson []).stableText :=
  Surroundings.formText?_of_read (.arr []) (.single []) (.single []) h rfl rfl rfl

/-- A graph that the schema rejects is written and the exit status tells of it; an unknown operation
ends a strict canonicalization before anything is written; different graphs are told apart. -/
theorem sparse_commands_atomic :
    ((sparseSurroundings.run ["compile", "--in", "five.json", "--out", "graph.json"]).effect =
        ⟨1, "", []⟩ ∧
      (sparseSurroundings.run ["compile", "--in", "program.json", "--out", "graph.json"]).effect =
        ⟨0, "", [("graph.json", "[]\n")]⟩ ∧
      (sparseSurroundings.run ["compile", "--validate", "--in", "blank.json", "--out",
          "graph.json"]).effect =
        ⟨1, "", [("graph.json", "[\n  \x7b\n    \"id\": \"b1\",\n    \"type\": \"\",\n" ++
          "    \"args\": [],\n    \"contents\": []\n  \x7d\n]\n")]⟩) ∧
    ((sparseSurroundings.run ["canonicalize", "--in", "graph.json"]).effect = ⟨0, "[]\n", []⟩ ∧
      (sparseSurroundings.run ["canonicalize", "--in", "named.json"]).effect =
        ⟨0, "[\n  \x7b\n    \"type\": \"x\",\n    \"args\": [],\n    \"contents\": []\n" ++
          "  \x7d\n]\n", []⟩ ∧
      (sparseSurroundings.run ["canonicalize", "--strict", "--in", "named.json", "--out",
          "form.json"]).effect = ⟨1, "", []⟩) ∧
    (sparseSurroundings.run ["equals", "--left", "graph.json", "--right", "form.json"]).exit = 0 ∧
      (sparseSurroundings.run ["equals", "--left", "x.json", "--right", "named.json"]).exit = 0 ∧
      (sparseSurroundings.run ["equals", "--left", "x.json", "--right", "graph.json"]).exit =
        1 := by
  refine ⟨⟨?_, ?_, ?_⟩, ⟨?_, ?_, ?_⟩, ?_, ?_, ?_⟩
  · refine ((commands_atomic sparseSurroundings _).1 _ rfl).trans ?_
    decide +kernel
  · refine ((commands_atomic sparseSurroundings _).1 _ rfl).trans ?_
    decide +kernel
  · refine ((commands_atomic sparseSurroundings _).1 _ rfl).trans ?_
    decide +kernel
  · refine ((commands_atomic sparseSurroundings _).2.1 _ rfl).trans ?_
    decide +kernel
  · refine ((commands_atomic sparseSurroundings _).2.1 _ rfl).trans ?_
    decide +kernel
  · refine ((commands_atomic sparseSurroundings _).2.1 _ rfl).trans ?_
    decide +kernel
  · have hequal : sparseSurroundings.Equal ⟨some "graph.json", some "form.json", false⟩ :=
      ⟨_, formText?_empty rfl, formText?_empty rfl⟩
    exact ((commands_atomic sparseSurroundings _).2.2 _ rfl).2.2.2.mpr hequal
  · have hequal : sparseSurroundings.Equal ⟨some "x.json", some "named.json", false⟩ :=
      ⟨_, formText?_x, formText?_named⟩
    exact ((commands_atomic sparseSurroundings _).2.2 _ rfl).2.2.2.mpr hequal
  · have hdiffer : ¬ sparseSurroundings.Equal ⟨some "x.json", some "graph.json", false⟩ := by
      rintro ⟨text, hleft, hright⟩
      rw [formText?_x] at hleft
      rw [formText?_empty rfl] at hright
      exact unknownBlock_text_ne (Option.some.inj (hleft.trans hright.symm))
    obtain ⟨_, _, hle, hiff⟩ := (commands_atomic sparseSurroundings
      ["equals", "--left", "x.json", "--right", "graph.json"]).2.2 _ rfl
    have hexit := mt hiff.mp hdiffer
    omega

end BlockFlow
