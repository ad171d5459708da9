import Mathlib
import BlockFlow.Proofs.Lowering.Results
import BlockFlow.Workspace

/-! Triples for computations with a state that may fail, and what the stages of the compiler do in a
workspace in terms of them. -/

namespace BlockFlow

section

variable {σ ε α β : Type} {P : σ → Prop} {Q : α → σ → Prop} {R : β → σ → Prop} {E F : σ → Prop}

/-- How a computation may end: in `Q` with a result, or in `E` with a failure. -/
def Ending (Q : α → σ → Prop) (E : σ → Prop) : Except ε α × σ → Prop
  | (.ok a, s) => Q a s
  | (.error _, s) => E s

/-- Started in `P`, a computation ends in `Q` with a result, or in `E` with a failure. -/
def Triple (P : σ → Prop) (x : ExceptT ε (StateM σ) α) (Q : α → σ → Prop) (E : σ → Prop) : Prop :=
  ∀ s, P s → Ending Q E (x.run.run s).run

theorem triple_pure {a : α} (h : ∀ s, P s → Q a s) :
    Triple P (pure a : ExceptT ε (StateM σ) α) Q E := h

theorem triple_throw {e : ε} (h : ∀ s, P s → E s) :
    Triple P (throw e : ExceptT ε (StateM σ) α) Q E := h

theorem triple_get {Q : σ → σ → Prop} (h : ∀ s, P s → Q s s) :
    Triple P (get : ExceptT ε (StateM σ) σ) Q E := h

theorem triple_modify {Q : Unit → σ → Prop} {f : σ → σ} (h : ∀ s, P s → Q () (f s)) :
    Triple P (modify f : ExceptT ε (StateM σ) Unit) Q E := h

theorem Triple.bind {x : ExceptT ε (StateM σ) β} {f : β → ExceptT ε (StateM σ) α}
    (hx : Triple P x R E) (hf : ∀ b, Triple (R b) (f b) Q E) : Triple P (x >>= f) Q E := by
  intro s hs
  have hend := hx s hs
  rcases hrun : (x.run.run s).run with ⟨e | b, t⟩
  · have hfails : ((x >>= f).run.run s).run = (.error e, t) := by simp_all
    rw [hrun] at hend
    rw [hfails]
    exact hend
  · have hruns : ((x >>= f).run.run s).run = ((f b).run.run t).run := by simp_all
    rw [hrun] at hend
    rw [hruns]
    exact hf b t hend

theorem Triple.mono {x : ExceptT ε (StateM σ) α} {Q' : α → σ → Prop} (h : Triple P x Q E)
    (hQ : ∀ a s, Q a s → Q' a s) (hE : ∀ s, E s → F s) : Triple P x Q' F := by
  intro s hs
  have hend := h s hs
  rcases hrun : (x.run.run s).run with ⟨_ | a, t⟩ <;> rw [hrun] at hend
  · exact hE t hend
  · exact hQ a t hend

/-- What is known of a failure in the first part may say more than what is to be known. -/
theorem Triple.bind_of_fails {x : ExceptT ε (StateM σ) β} {f : β → ExceptT ε (StateM σ) α}
    (hx : Triple P x R F) (hE : ∀ s, F s → E s) (hf : ∀ b, Triple (R b) (f b) Q E) :
    Triple P (x >>= f) Q E :=
  (hx.mono (fun _ _ => id) hE).bind hf

theorem Triple.tryCatch {x : ExceptT ε (StateM σ) α} {handle : ε → ExceptT ε (StateM σ) α}
    (hx : Triple P x Q F) (hhandle : ∀ e, Triple F (handle e) Q E) :
    Triple P (MonadExcept.tryCatch x handle) Q E := by
  intro s hs
  have hend : Ending Q F (StateT.run x s) := hx s hs
  rcases hrun : StateT.run x s with ⟨e | a, t⟩ <;> rw [hrun] at hend
  · have hcaught : ((MonadExcept.tryCatch x handle).run.run s).run =
        ((handle e).run.run t).run := by
      simp only [MonadExcept.tryCatch, tryCatchThe, MonadExceptOf.tryCatch, ExceptT.tryCatch,
        ExceptT.run_mk, StateT.run_bind, hrun]
      rfl
    rw [hcaught]
    exact hhandle e t hend
  · have hruns : ((MonadExcept.tryCatch x handle).run.run s).run = (.ok a, t) := by
      simp only [MonadExcept.tryCatch, tryCatchThe, MonadExceptOf.tryCatch, ExceptT.tryCatch,
        ExceptT.run_mk, StateT.run_bind, hrun]
      rfl
    rw [hruns]
    exact hend

/-- A fact that does not depend on the state. -/
theorem triple_of_fact {p : Prop} {x : ExceptT ε (StateM σ) α} (h : p → Triple P x Q E) :
    Triple (fun s => p ∧ P s) x Q E :=
  fun s hs => h hs.1 s hs.2

end

/-! ### Work -/

theorem Traced.trace_map {ω ε α β : Type} (f : α → β) (x : Traced ω ε α) :
    (f <$> x).trace = x.trace := by
  rw [← bind_pure_comp]
  obtain ⟨trace, _ | a⟩ := x
  · rfl
  · exact List.append_nil trace

/-- A report with more warnings. -/
def Report.warned (r : Report) (warnings : List Warning) : Report :=
  warnings.foldl (fun r w => r.addWarning w.diagnostic) r

def Workspace.warned (w : Workspace) (warnings : List Warning) : Workspace :=
  { w with report := w.report.warned warnings }

/-- A workspace that differs from `v` at most in its log. -/
structure Workspace.Like (v w : Workspace) : Prop where
  settings : w.settings = v.settings
  report : w.report = v.report
  ids : w.ids = v.ids

/-- The graph of a program. -/
def compiledGraph? (least : Int) (ids : IdSupply) (linking : Bool) (program : Json) :
    Option Graph := do
  let tree ← (lowerProgram least .top program).result
  if linking then (ids.link tree).1.toOption else some tree

/-- The canonical form of a document. -/
def GraphDocument.canonical (strict : Bool) : GraphDocument → Canonicalizing GraphDocument
  | .single g => .single <$> g.canonical strict
  | .collection graphs => .collection <$> canonicalList strict graphs

namespace Work

variable {α ε : Type} {v : Workspace}

/-- Whatever does not depend on the log is kept. -/
theorem triple_log {level : Log.Level} {component : Component} {message : String}
    {P E : Workspace → Prop} (h : ∀ w entry, P w → P (w.addLog entry)) :
    Triple P (log level component message) (fun _ => P) E :=
  triple_modify fun w hw => h w _ hw

/-- Work that ends with an entry in the log. -/
theorem triple_announce {level : Log.Level} {component : Component} {message : Workspace → String}
    {a : α} {Q : α → Workspace → Prop} {E : Workspace → Prop}
    (h : ∀ w entry, Q a w → Q a (w.addLog entry)) :
    Triple (Q a) (do log level component (message (← get)); return a) Q E :=
  (triple_get (Q := fun _ => Q a) fun _ => id).bind fun _ => (triple_log h).bind fun _ =>
    triple_pure fun _ => id

theorem like_addLog (w : Workspace) (entry : Log.Entry) (h : v.Like w) : v.Like (w.addLog entry) :=
  ⟨h.settings, h.report, h.ids⟩

theorem triple_get_bind {f : Workspace → Work α} {Q : α → Workspace → Prop} {E : Workspace → Prop}
    (hf : ∀ u, v.Like u → Triple v.Like (f u) Q E) : Triple v.Like (get >>= f) Q E :=
  (triple_get (Q := fun u w => v.Like u ∧ v.Like w) fun _ h => ⟨h, h⟩).bind fun u =>
    triple_of_fact (hf u)

theorem triple_ofExcept {P : Workspace → Prop} {wrap : ε → Failure} (x : Except ε α) :
    Triple P (ofExcept wrap x) (fun a w => x.toOption = some a ∧ P w)
      (fun _ => x.toOption = none) := by
  cases x with
  | ok a => exact triple_pure fun _ h => ⟨rfl, h⟩
  | error e => exact triple_throw fun _ _ => rfl

theorem like_foldl_warn (component : Component) (warnings : List Warning) {w : Workspace}
    (h : v.Like w) :
    (v.warned warnings).Like (warnings.foldl (Workspace.warn component) w) := by
  induction warnings generalizing v w with
  | nil => exact h
  | cons first rest ih =>
    refine ih (v := { v with report := v.report.addWarning first.diagnostic })
      ⟨h.settings, ?_, h.ids⟩
    exact congrArg (·.addWarning first.diagnostic) h.report

theorem triple_ofTraced (component : Component) (wrap : ε → Failure) (x : Traced Warning ε α) :
    Triple v.Like (ofTraced component wrap x)
      (fun a w => x.result = some a ∧ (v.warned x.trace).Like w)
      (fun _ => x.result = none) :=
  (triple_modify fun _ h => like_foldl_warn component x.trace h).bind fun _ =>
    triple_ofExcept x.outcome

theorem triple_chooseIds (name : Option String) :
    Triple v.Like (chooseIds name none)
      (fun _ w => ∃ strategy, (v.settings.idStrategy name none).toOption = some strategy ∧
        ({ v with ids := v.ids.switch strategy }).Like w)
      (fun _ => (v.settings.idStrategy name none).toOption = none) := by
  refine triple_get_bind fun u hu => ?_
  rw [hu.settings]
  refine (triple_ofExcept _).bind fun strategy => triple_modify fun w h => ?_
  exact ⟨strategy, h.1, h.2.settings, h.2.report, congrArg (·.switch strategy) h.2.ids⟩

theorem triple_link (tree : Graph) :
    Triple v.Like (link tree)
      (fun g w => (v.ids.link tree).1.toOption = some g ∧ w.report = v.report)
      (fun _ => (v.ids.link tree).1.toOption = none) := by
  refine triple_get_bind fun u hu => ?_
  rw [hu.ids]
  obtain ⟨result, ids⟩ := v.ids.link tree
  have hkept (w : Workspace) (h : v.Like w) : w.report = v.report := h.report
  refine (triple_modify (Q := fun _ w => w.report = v.report) hkept).bind fun _ => ?_
  cases result with
  | ok g =>
    refine (triple_log (P := fun w => w.report = v.report) fun _ _ => id).bind fun _ => ?_
    exact triple_pure fun _ h => ⟨rfl, h⟩
  | error e =>
    refine (triple_modify (Q := fun _ _ => True) fun _ _ => trivial).bind fun _ => ?_
    exact triple_throw fun _ _ => rfl

theorem triple_compile (linking : Bool) (program : Json) :
    Triple v.Like (compile .current linking program)
      (fun g w => compiledGraph? v.settings.minForkPaths v.ids linking program = some g ∧
        w.report = v.report.warned (lowerProgram v.settings.minForkPaths .top program).trace)
      (fun _ => compiledGraph? v.settings.minForkPaths v.ids linking program = none) := by
  refine triple_get_bind fun u hu => ?_
  rw [hu.settings]
  unfold compiledGraph?
  generalize lowerProgram v.settings.minForkPaths .top program = lowering
  refine (triple_ofTraced .lowerer .lower _).bind_of_fails (fun _ h => by rw [h]; rfl)
    fun tree => ?_
  refine triple_of_fact fun htree => ?_
  rw [htree]
  cases linking with
  | false =>
    refine Triple.bind (triple_pure fun _ h => ⟨rfl, h.report⟩) fun g =>
      triple_announce (Q := fun g w => some tree = some g ∧
        w.report = (v.warned lowering.trace).report) fun _ _ => id
  | true =>
    refine (triple_link tree).bind fun g => ?_
    exact triple_announce (Q := fun g w => (v.ids.link tree).1.toOption = some g ∧
      w.report = (v.warned lowering.trace).report) fun _ _ => id

theorem triple_canonicalized (asked : Option Bool) (x : Bool → Canonicalizing α) :
    Triple v.Like (do canonicalized (x (← strictness asked)))
      (fun a w => (x (asked.getD v.settings.strictCanonicalization)).result = some a ∧
        (v.warned (x (asked.getD v.settings.strictCanonicalization)).trace).Like w)
      (fun _ => (x (asked.getD v.settings.strictCanonicalization)).result = none) := by
  refine Triple.bind (R := fun strict w =>
    strict = asked.getD v.settings.strictCanonicalization ∧ v.Like w) ?_ fun strict => ?_
  · refine triple_get_bind fun u hu => triple_pure fun _ h => ⟨?_, h⟩
    rw [hu.settings]
  · refine triple_of_fact fun hstrict => ?_
    rw [hstrict]
    exact triple_ofTraced .canonicalizer .canonical _

theorem triple_canonicalizeDocument (asked : Option Bool) (doc : GraphDocument) :
    Triple v.Like (canonicalizeDocument asked doc)
      (fun form w =>
        (doc.canonical (asked.getD v.settings.strictCanonicalization)).result = some form ∧
          (v.warned (doc.canonical (asked.getD v.settings.strictCanonicalization)).trace).Like w)
      (fun _ => (doc.canonical (asked.getD v.settings.strictCanonicalization)).result = none) := by
  cases doc with
  | single g =>
    simp only [GraphDocument.canonical, Traced.result_map, Traced.trace_map]
    refine (triple_canonicalized asked g.canonical).bind_of_fails (fun _ h => ?_) fun form =>
      triple_pure fun _ h => ⟨?_, h.2⟩
    · rw [h]; rfl
    · rw [h.1]; rfl
  | collection graphs =>
    simp only [GraphDocument.canonical, Traced.result_map, Traced.trace_map]
    refine (triple_canonicalized asked (canonicalList · graphs)).bind_of_fails (fun _ h => ?_)
      fun forms => triple_pure fun _ h => ⟨?_, h.2⟩
    · rw [h]; rfl
    · rw [h.1]; rfl

end Work

end BlockFlow
