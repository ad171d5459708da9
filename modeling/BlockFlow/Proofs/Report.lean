import Mathlib
import BlockFlow.Proofs.Diagnostics
import BlockFlow.Proofs.Triples

/-! The report as a log that several pieces of work share. Whatever they do, and whether they
succeed or fail, entries are only added, the hints are those of the warnings, and a stage notes an
error only on the way to a failure. -/

namespace BlockFlow

/-- The text of a hint, unless it is empty. -/
def Diagnostic.hintText? (d : Diagnostic) : Option String :=
  match d.hint with
  | .str text => if text = "" then none else some text
  | _ => none

/-- The hint is a text, or there is none. -/
def Diagnostic.HasTextHint (d : Diagnostic) : Prop := d.hint = .null ∨ ∃ text, d.hint = .str text

namespace Report

variable {r s t : Report} {d : Diagnostic} {returned : Bool}

/-- The texts of the hints of the warnings, each where it first occurs. -/
def hintTexts (r : Report) : List String := (r.warnings.filterMap Diagnostic.hintText?).eraseDups

/-- The hints are those of the warnings. -/
def Consistent (r : Report) : Prop := r.hints = r.hintTexts.map .str

theorem any_same_str (texts : List String) (text : String) :
    (texts.map Json.str).any (·.same (.str text)) = decide (text ∈ texts) := by
  induction texts with
  | nil => rfl
  | cons first rest ih =>
    have hsame : (Json.str first).same (.str text) = decide (text = first) := by
      rw [Bool.eq_iff_iff, decide_eq_true_iff, eq_comm (a := text)]
      exact beq_iff_eq.trans ⟨Key.str.inj, congrArg Key.str⟩
    rw [List.map_cons, List.any_cons, ih, hsame]
    simp [Bool.decide_or]

theorem addHint_str (texts : List String) {text : String} (h : text ≠ "") :
    addHint (texts.eraseDups.map .str) (.str text) = (texts ++ [text]).eraseDups.map .str := by
  have htruthy : (Json.str text).truthy = true := by simp [Json.truthy, h]
  rw [addHint, any_same_str, htruthy, List.eraseDups_append, List.removeAll]
  by_cases hmem : text ∈ texts
  · simp [hmem]
  · simp [hmem, List.eraseDups_cons]

theorem Consistent.addWarning (h : r.Consistent) (hd : d.HasTextHint) :
    (r.addWarning d).Consistent := by
  unfold Consistent hintTexts Report.addWarning at *
  rw [List.filterMap_append, h]
  rcases hd with hnone | ⟨text, htext⟩
  · simp [hnone, addHint, Json.truthy, Diagnostic.hintText?]
  · by_cases hempty : text = ""
    · simp [htext, hempty, addHint, Json.truthy, Diagnostic.hintText?]
    · rw [htext, addHint_str _ hempty]
      simp [htext, hempty, Diagnostic.hintText?]

/-- How work changes the report: entries are added, and errors only if it does not return. -/
structure Grows (returned : Bool) (r s : Report) : Prop where
  errors : r.errors <+: s.errors
  warnings : r.warnings <+: s.warnings
  hints : r.hints <+: s.hints
  consistent : r.Consistent → s.Consistent
  clean : returned = true → s.errors = r.errors

theorem grows_refl (r : Report) (returned : Bool) : r.Grows returned r :=
  ⟨List.prefix_refl _, List.prefix_refl _, List.prefix_refl _, id, fun _ => rfl⟩

theorem Grows.trans (hr : Grows true r s) (hs : Grows returned s t) : Grows returned r t where
  errors := hr.errors.trans hs.errors
  warnings := hr.warnings.trans hs.warnings
  hints := hr.hints.trans hs.hints
  consistent := hs.consistent ∘ hr.consistent
  clean := fun h => (hs.clean h).trans (hr.clean rfl)

theorem hints_addHint (hints : List Json) (hint : Json) : hints <+: addHint hints hint := by
  unfold addHint
  split
  · exact List.prefix_append _ _
  · exact List.prefix_refl _

theorem grows_addWarning (r : Report) (hd : d.HasTextHint) : Grows true r (r.addWarning d) where
  errors := List.prefix_refl _
  warnings := List.prefix_append _ _
  hints := hints_addHint _ _
  consistent := fun h => h.addWarning hd
  clean := fun _ => rfl

theorem grows_addErrors (r : Report) (ds : List Diagnostic) :
    Grows false r { r with errors := r.errors ++ ds } where
  errors := List.prefix_append _ _
  warnings := List.prefix_refl _
  hints := List.prefix_refl _
  consistent := id
  clean := nofun

end Report

theorem Warning.hasTextHint (w : Warning) : w.diagnostic.HasTextHint := .inr ⟨_, rfl⟩

/-! ### Work -/

namespace Work

variable {α β : Type}

/-- Whatever the report was at some time before, some work changes it as it should. -/
def Reports (x : Work α) : Prop :=
  ∀ r : Report, Triple (fun w => r.Grows true w.report) x (fun _ w => r.Grows true w.report)
    (fun w => r.Grows false w.report)

theorem reports_pure (a : α) : (pure a : Work α).Reports := fun _ => triple_pure fun _ => id

theorem reports_throw (e : Failure) : (throw e : Work α).Reports :=
  fun _ => triple_throw fun _ h => h.trans (Report.grows_refl _ false)

theorem reports_get : (get : Work Workspace).Reports := fun _ => triple_get fun _ => id

theorem reports_modify {f : Workspace → Workspace}
    (hf : ∀ w : Workspace, w.report.Grows true (f w).report) : (modify f : Work Unit).Reports :=
  fun _ => triple_modify fun w h => h.trans (hf w)

theorem Reports.bind {x : Work α} {f : α → Work β} (hx : x.Reports) (hf : ∀ a, (f a).Reports) :
    (x >>= f).Reports :=
  fun r => (hx r).bind fun a => hf a r

theorem reports_mapM {f : α → Work β} (hf : ∀ a, (f a).Reports) (xs : List α) :
    (xs.mapM f).Reports := by
  induction xs with
  | nil => exact reports_pure []
  | cons x xs ih =>
    rw [List.mapM_cons]
    exact (hf x).bind fun _ => ih.bind fun _ => reports_pure _

theorem reports_log (level : Log.Level) (component : Component) (message : String) :
    (log level component message).Reports :=
  reports_modify fun w => w.report.grows_refl _

/-- Work that ends with an entry in the log. -/
theorem reports_logged (level : Log.Level) (component : Component) (message : Workspace → String)
    (a : α) : Reports (do log level component (message (← get)); return a) :=
  reports_get.bind fun _ => (reports_log _ _ _).bind fun _ => reports_pure a

theorem reports_ofExcept {ε : Type} (wrap : ε → Failure) (x : Except ε α) :
    (ofExcept wrap x).Reports := by
  cases x with
  | ok a => exact reports_pure a
  | error e => exact reports_throw (wrap e)

theorem grows_foldl_warn (component : Component) (warnings : List Warning) (w : Workspace) :
    w.report.Grows true (warnings.foldl (Workspace.warn component) w).report := by
  induction warnings generalizing w with
  | nil => exact w.report.grows_refl _
  | cons first rest ih =>
    exact (w.report.grows_addWarning first.hasTextHint).trans (ih (w.warn component first))

theorem reports_ofTraced {ε : Type} (component : Component) (wrap : ε → Failure)
    (x : Traced Warning ε α) : (ofTraced component wrap x).Reports :=
  (reports_modify (grows_foldl_warn component x.trace)).bind fun _ => reports_ofExcept _ _

/-- Linking notes errors, but only where it fails. -/
theorem reports_link (tree : Graph) : (link tree).Reports := by
  intro r w hr
  rcases (linkGraph w.ids.idAt tree).yields_or_fails 0 with ⟨g, k, hy⟩ | ⟨e, k, hf⟩
  · obtain ⟨v, hruns, hreport⟩ := runs_link_of_yields hy
    rw [hruns, Ending, hreport]
    exact hr
  · obtain ⟨v, hfails, hreport⟩ := fails_link hf
    rw [hfails, Ending, hreport]
    exact hr.trans (w.report.grows_addErrors _)

theorem reports_chooseIds (name label : Option String) : (chooseIds name label).Reports :=
  reports_get.bind fun _ => (reports_ofExcept _ _).bind fun _ =>
    reports_modify fun w => w.report.grows_refl _

theorem reports_lower (least : Int) (program : Json) : (lower least program).Reports :=
  (reports_ofTraced _ _ _).bind fun tree => reports_logged _ _ _ tree

theorem reports_compile (choice : IdChoice) (linking : Bool) (program : Json) :
    (compile choice linking program).Reports := by
  refine reports_get.bind fun _ => (reports_ofTraced _ _ _).bind fun tree => ?_
  cases linking with
  | false => exact (reports_pure tree).bind fun graph => reports_logged _ _ _ graph
  | true =>
    cases choice with
    | current => exact (reports_link tree).bind fun graph => reports_logged _ _ _ graph
    | configured =>
      exact (reports_chooseIds none none).bind fun _ => (reports_link tree).bind fun graph =>
        reports_logged _ _ _ graph

theorem reports_canonicalized (asked : Option Bool) (x : Bool → Canonicalizing α) :
    Reports (do canonicalized (x (← strictness asked))) :=
  (reports_get.bind fun _ => reports_pure _).bind fun _ => reports_ofTraced _ _ _

theorem reports_canonicalizeDocument (asked : Option Bool) (doc : GraphDocument) :
    (canonicalizeDocument asked doc).Reports := by
  cases doc with
  | single g => exact (reports_canonicalized asked g.canonical).bind fun _ => reports_pure _
  | collection graphs =>
    exact (reports_canonicalized asked (canonicalList · graphs)).bind fun _ => reports_pure _

theorem reports_canonicalizeForm (asked : Option Bool) (v : Json) :
    (canonicalizeForm asked v).Reports :=
  (reports_ofExcept _ _).bind fun g => reports_canonicalized asked g.canonical

end Work

/-! ### Runs that share a report -/

/-- A stage of the compiler, with what it is given. -/
inductive Stage
  | lowerArgument (least : Int) (path : Path) (source : Json)
  | lowerOperation (least : Int) (path : Path) (source : Json)
  | lowerProgram (least : Int) (path : Path) (source : Json)
  | lower (least : Int) (program : Json)
  | link (tree : Graph)
  | compile (choice : Work.IdChoice) (linking : Bool) (program : Json)
  | canonicalize (asked : Option Bool) (document : GraphDocument)
  | canonicalizeForm (asked : Option Bool) (form : Json)
  | canonicalizeForms (asked : Option Bool) (forms : List Json)

/-- The result of a stage. -/
def Stage.Result : Stage → Type
  | lowerArgument _ _ _ => Arg
  | lowerOperation _ _ _ => Block
  | lowerProgram _ _ _ | lower _ _ | link _ | compile _ _ _ | canonicalizeForm _ _ => Graph
  | canonicalize _ _ => GraphDocument
  | canonicalizeForms _ _ => List Graph

def Stage.work : (stage : Stage) → Work stage.Result
  | lowerArgument least path source => Work.lowered (BlockFlow.lowerArgument least path source)
  | lowerOperation least path source => Work.lowered (BlockFlow.lowerOperation least path source)
  | lowerProgram least path source => Work.lowered (BlockFlow.lowerProgram least path source)
  | lower least program => Work.lower least program
  | link tree => Work.link tree
  | compile choice linking program => Work.compile choice linking program
  | canonicalize asked document => Work.canonicalizeDocument asked document
  | canonicalizeForm asked form => Work.canonicalizeForm asked form
  | canonicalizeForms asked forms => Work.canonicalizeForms asked forms

theorem Stage.reports_work (stage : Stage) : stage.work.Reports := by
  cases stage with
  | lowerArgument least path source => exact Work.reports_ofTraced _ _ _
  | lowerOperation least path source => exact Work.reports_ofTraced _ _ _
  | lowerProgram least path source => exact Work.reports_ofTraced _ _ _
  | lower least program => exact Work.reports_lower least program
  | link tree => exact Work.reports_link tree
  | compile choice linking program => exact Work.reports_compile choice linking program
  | canonicalize asked document => exact Work.reports_canonicalizeDocument asked document
  | canonicalizeForm asked form => exact Work.reports_canonicalizeForm asked form
  | canonicalizeForms asked forms =>
    exact (Work.reports_mapM (Work.reports_canonicalizeForm asked) forms).bind fun _ =>
      Work.reports_pure _

/-- What is done with a report: a stage works in a workspace that shares it, or an entry is made by
hand. Only the hint of an error may be any value. -/
inductive Activity
  | stage (w : Workspace) (s : Stage)
  | addError (d : Diagnostic)
  | addWarning (code path message : String) (hint : Option String)

namespace Activity

/-- The report after an activity, whether it succeeds or fails. -/
def report (r : Report) : Activity → Report
  | stage w s => s.work.reportAfter { w with report := r }
  | addError d => r.addError d
  | addWarning code path message hint => r.addWarning ⟨code, path, message, hint.elim .null .str⟩

/-- What an activity may do to a report, beyond what every one may. -/
def Notes (r s : Report) : Activity → Prop
  | stage w x => ∀ result, x.work.Returns { w with report := r } result → s.errors = r.errors
  | addError d => s.errors = r.errors ++ [d] ∧ s.warnings = r.warnings ∧ s.hints = r.hints
  | addWarning code path message hint =>
    s.warnings = r.warnings ++ [⟨code, path, message, hint.elim .null .str⟩] ∧ s.errors = r.errors

theorem grows_report (a : Activity) (r : Report) : ∃ returned, r.Grows returned (a.report r) := by
  cases a with
  | stage w s =>
    have hend := s.reports_work r { w with report := r } (r.grows_refl true)
    rw [report, Work.reportAfter]
    rcases hrun : (s.work.run.run { w with report := r }).run with ⟨_ | result, v⟩ <;>
      rw [hrun] at hend
    · exact ⟨false, hend⟩
    · exact ⟨true, hend⟩
  | addError d => exact ⟨false, r.grows_addErrors [d]⟩
  | addWarning code path message hint =>
    refine ⟨true, r.grows_addWarning ?_⟩
    cases hint with
    | none => exact .inl rfl
    | some text => exact .inr ⟨text, rfl⟩

theorem notes_report (a : Activity) (r : Report) : a.Notes r (a.report r) := by
  cases a with
  | stage w s =>
    rintro result ⟨v, hruns⟩
    have hend := s.reports_work r { w with report := r } (r.grows_refl true)
    rw [hruns] at hend
    rw [report, Work.reportAfter, hruns]
    exact hend.clean rfl
  | addError d => exact ⟨rfl, rfl, rfl⟩
  | addWarning code path message hint => exact ⟨rfl, rfl⟩

end Activity

/-- The report after a run of activities, from an empty one. -/
def Report.after (activities : List Activity) : Report :=
  activities.foldl Activity.report .empty

theorem Report.after_concat (before : List Activity) (a : Activity) :
    Report.after (before ++ [a]) = a.report (Report.after before) := by
  simp [Report.after]

theorem Report.consistent_after (activities : List Activity) :
    (Report.after activities).Consistent := by
  induction activities using List.reverseRecOn with
  | nil => rfl
  | append_singleton before a ih =>
    obtain ⟨_, hgrows⟩ := a.grows_report (Report.after before)
    rw [Report.after_concat]
    exact hgrows.consistent ih

/-- A shared report is an append-only log. After each activity, whether it succeeded or failed, the
entries are those before it and some more, and the hints are the non-empty hints of the warnings,
each where it first occurs. A stage that returns a result has added no error. -/
theorem report_append_only (before : List Activity) (a : Activity) :
    (Report.after before).errors <+: (Report.after (before ++ [a])).errors ∧
    (Report.after before).warnings <+: (Report.after (before ++ [a])).warnings ∧
    (Report.after before).hints <+: (Report.after (before ++ [a])).hints ∧
    (Report.after (before ++ [a])).hints =
      (((Report.after (before ++ [a])).warnings.filterMap
        Diagnostic.hintText?).eraseDups.map Json.str) ∧
    a.Notes (Report.after before) (Report.after (before ++ [a])) := by
  obtain ⟨_, hgrows⟩ := a.grows_report (Report.after before)
  have hconsistent := Report.consistent_after (before ++ [a])
  have hnotes := a.notes_report (Report.after before)
  rw [Report.Consistent, Report.hintTexts] at hconsistent
  rw [← Report.after_concat] at hgrows hnotes
  exact ⟨hgrows.errors, hgrows.warnings, hgrows.hints, hconsistent, hnotes⟩

/-- A fork without paths is lowered twice, and an error with a hint is noted between. -/
def repeatedFork : List Activity :=
  let lowering := Activity.stage (labelledWorkspace "b")
    (.lower 2 (.arr [.arr [.str "op_fork_execution"]]))
  [lowering, .addError ⟨"NOTE", "", "noted by hand", .str "look here"⟩, lowering]

theorem repeated_hint_once :
    let linking := Activity.stage (labelledWorkspace "b") (.link forkAmongValuesTree)
    (Report.after repeatedFork).errors.length = 1 ∧
    (Report.after repeatedFork).errors <+: (Report.after (repeatedFork ++ [linking])).errors ∧
    (Report.after (repeatedFork ++ [linking])).errors.length = 2 ∧
    (Report.after (repeatedFork ++ [linking])).warnings.length = 2 ∧
    (Report.after (repeatedFork ++ [linking])).hints =
      [.str "A fork needs at least two concurrent paths to run anything in parallel"] := by
  intro linking
  obtain ⟨herrors, -, -, hhints, -⟩ := report_append_only repeatedFork linking
  exact ⟨rfl, herrors, rfl, rfl, hhints.trans rfl⟩

end BlockFlow
