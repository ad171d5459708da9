import Mathlib
import BlockFlow.Graph.Form
import BlockFlow.Proofs.Compilation
import BlockFlow.Proofs.Graph.Reading

/-! Canonicalization in a workspace reads the graphs that it is given and makes them canonical,
whatever was done in the workspace before. -/

namespace BlockFlow

/-- A document that holds a graph of this canonical form. -/
def Json.CanonicalizesTo (strict : Bool) (d : Json) (form : Graph) : Prop :=
  ∃ g, Graph.ofJson d = .ok g ∧ (g.canonical strict).outcome = .ok form

/-- What can be read as a graph is taken for one. -/
theorem Graph.ofForm_of_ofJson {d : Json} {g : Graph} (h : Graph.ofJson d = .ok g) :
    Graph.ofForm d = .ok g := by
  obtain ⟨items, rfl, hread⟩ := Graph.ofJson_eq_ok.mp h
  cases items with
  | nil =>
    cases hread
    rfl
  | cons first rest =>
    rw [List.mapM_cons] at hread
    obtain ⟨b, hb, -⟩ := bind_eq_ok.mp hread
    obtain ⟨fields, -, -, -, rfl, -⟩ := Block.ofJson_eq_ok.mp hb
    rw [Graph.ofForm, h]
    rfl

variable {strict : Bool} (w : Workspace)

theorem Work.canonicalize_returns {g form : Graph} (h : (g.canonical strict).outcome = .ok form) :
    (Work.canonicalize (some strict) g).Returns w form := by
  refine ⟨(g.canonical strict).trace.foldl (Workspace.warn .canonicalizer) w, ?_⟩
  simp only [Work.canonicalize, Work.strictness, Work.canonicalized, Work.ofTraced, Work.runs_bind,
    Work.runs_get, Work.runs_pure, Work.runs_modify]
  refine ⟨strict, w, ⟨w, w, ⟨rfl, rfl⟩, rfl, rfl⟩, (), _, rfl, ?_⟩
  rw [h]
  exact Work.runs_pure.mpr ⟨rfl, rfl⟩

theorem Work.canonicalizeForm_returns {d : Json} {form : Graph}
    (h : d.CanonicalizesTo strict form) :
    (Work.canonicalizeForm (some strict) d).Returns w form := by
  obtain ⟨g, hread, hform⟩ := h
  obtain ⟨v, hv⟩ := Work.canonicalize_returns w hform
  refine ⟨v, Work.runs_bind.mpr ⟨g, w, ?_, hv⟩⟩
  rw [Graph.ofForm_of_ofJson hread]
  exact Work.runs_pure.mpr ⟨rfl, rfl⟩

/-! ### Collections -/

/-- Every document gets the form that it has alone, and the forms are put in order. -/
theorem Work.canonicalizeForms_returns {documents : List Json} {forms : List Graph}
    (h : List.Forall₂ (Json.CanonicalizesTo strict) documents forms) :
    (Work.canonicalizeForms (some strict) documents).Returns w (sortByText Graph.toJson forms) := by
  have hall : (documents.mapM (Work.canonicalizeForm (some strict))).Returns w forms := by
    induction h generalizing w with
    | nil => exact ⟨w, Work.runs_pure.mpr ⟨rfl, rfl⟩⟩
    | cons hd _ ih =>
      obtain ⟨v, hv⟩ := Work.canonicalizeForm_returns w hd
      obtain ⟨u, hu⟩ := ih v
      refine ⟨u, ?_⟩
      rw [List.mapM_cons]
      refine Work.runs_bind.mpr ⟨_, v, hv, Work.runs_bind.mpr ⟨_, u, hu, ?_⟩⟩
      exact Work.runs_pure.mpr ⟨rfl, rfl⟩
  obtain ⟨v, hv⟩ := hall
  exact ⟨v, Work.runs_bind.mpr ⟨forms, v, hv, Work.runs_pure.mpr ⟨rfl, rfl⟩⟩⟩

theorem canonicalList_outcome {graphs forms : List Graph}
    (h : List.Forall₂ (fun g form => (g.canonical strict).outcome = .ok form) graphs forms) :
    (canonicalList strict graphs).outcome = .ok (sortByText Graph.toJson forms) := by
  have hall : (graphs.mapM (Graph.canonical strict)).result = some forms := by
    induction h with
    | nil => rfl
    | cons hg _ ih => simp [List.mapM_cons, Traced.result_eq_some.mpr hg, ih]
  rw [← Traced.result_eq_some, canonicalList]
  simp [hall]

/-- Reading all documents first and then making the graphs canonical gives the same. -/
theorem canonicalList_of_documents {documents : List Json} {graphs forms : List Graph}
    (h : List.Forall₂ (Json.CanonicalizesTo strict) documents forms)
    (hread : documents.mapM Graph.ofJson = .ok graphs) :
    (canonicalList strict graphs).outcome = .ok (sortByText Graph.toJson forms) := by
  apply canonicalList_outcome
  induction h generalizing graphs with
  | nil =>
    cases hread
    exact .nil
  | cons hd _ ih =>
    rw [List.mapM_cons] at hread
    obtain ⟨g, hg, hread⟩ := bind_eq_ok.mp hread
    obtain ⟨others, hothers, hread⟩ := bind_eq_ok.mp hread
    cases hread
    obtain ⟨g', hg', hform⟩ := hd
    obtain rfl : g' = g := Except.ok.inj (hg'.symm.trans hg)
    exact .cons hform (ih hothers)

end BlockFlow
