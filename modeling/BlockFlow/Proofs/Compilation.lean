import Mathlib
import BlockFlow.Proofs.Linking.Runs
import BlockFlow.Proofs.Lowering.Trees
import BlockFlow.Workspace

/-! Compilation lowers a program and links the tree. -/

namespace BlockFlow

namespace Work

variable {α β : Type} {w v : Workspace}

/-- Some work started in `w` succeeds and leaves the workspace `v`. -/
def Runs (x : Work α) (w : Workspace) (a : α) (v : Workspace) : Prop :=
  (x.run.run w).run = (.ok a, v)

/-- Some work started in `w` fails and leaves the workspace `v`. -/
def Fails (x : Work α) (w : Workspace) (e : Failure) (v : Workspace) : Prop :=
  (x.run.run w).run = (.error e, v)

/-- Some work succeeds. -/
def Returns (x : Work α) (w : Workspace) (a : α) : Prop := ∃ v, x.Runs w a v

theorem runs_pure {a b : α} : (pure a : Work α).Runs w b v ↔ a = b ∧ w = v := by
  simp [Runs]

theorem runs_bind {x : Work α} {f : α → Work β} {b : β} :
    (x >>= f).Runs w b v ↔ ∃ a u, x.Runs w a u ∧ (f a).Runs u b v := by
  unfold Runs
  rcases hx : (x.run.run w).run with ⟨_ | a, u⟩ <;> simp_all

theorem runs_get {a : Workspace} : (get : Work Workspace).Runs w a v ↔ w = a ∧ w = v := by
  have h : ((get : Work Workspace).run.run w).run = (.ok w, w) := rfl
  simp [Runs, h]

theorem runs_modify {f : Workspace → Workspace} {u : Unit} :
    (modify f : Work Unit).Runs w u v ↔ f w = v := by
  have h : ((modify f : Work Unit).run.run w).run = (.ok (), f w) := rfl
  simp [Runs, h]

theorem not_runs_throw {e : Failure} {a : α} : ¬ (throw e : Work α).Runs w a v := by
  simp [Runs]

theorem fails_throw (e : Failure) : (throw e : Work α).Fails w e w := by
  simp [Fails]

theorem Runs.bind_fails {x : Work α} {f : α → Work β} {a : α} {u : Workspace} {e : Failure}
    (h : x.Runs w a u) (hf : (f a).Fails u e v) : (x >>= f).Fails w e v := by
  simp_all [Runs, Fails]

theorem Runs.not_fails {x : Work α} {a : α} {u : Workspace} {e : Failure} (h : x.Runs w a v) :
    ¬ x.Fails w e u := by
  simp [Runs, Fails] at h ⊢
  simp [h]

end Work

/-- The operations of a program, each as the block that it becomes. -/
def Json.operations (program : Json) : List Block :=
  match program.tree? with
  | some tree => tree.blocks
  | none => []

open Linking

/-- Lowering in a workspace notes warnings and changes nothing else. -/
theorem runs_lowered {α : Type} {x : Lowering α} {w v : Workspace} {a : α}
    (h : (Work.lowered x).Runs w a v) :
    x.outcome = .ok a ∧ v.ids = w.ids ∧ v.settings = w.settings := by
  simp only [Work.lowered, Work.ofTraced, Work.runs_bind, Work.runs_modify] at h
  obtain ⟨_, u, rfl, h⟩ := h
  have hkept (ws : List Warning) (w : Workspace) :
      (ws.foldl (Workspace.warn .lowerer) w).ids = w.ids ∧
        (ws.foldl (Workspace.warn .lowerer) w).settings = w.settings := by
    induction ws generalizing w with
    | nil => exact ⟨rfl, rfl⟩
    | cons e es ih => exact ih (Workspace.warn .lowerer w e)
  cases hx : x.outcome with
  | error e => simp [hx, Work.ofExcept, Work.not_runs_throw] at h
  | ok b =>
    simp only [hx, Work.ofExcept, Work.runs_pure] at h
    obtain ⟨rfl, rfl⟩ := h
    exact ⟨rfl, hkept _ _⟩

/-- Linking in a workspace takes the ids of the workspace. -/
theorem runs_link {tree g : Graph} {w v : Workspace} (h : (Work.link tree).Runs w g v) :
    ∃ k, (linkGraph w.ids.idAt tree).Yields 0 g k := by
  simp only [Work.link, Work.runs_bind, Work.runs_get, Work.runs_modify] at h
  obtain ⟨_, _, ⟨rfl, rfl⟩, _, _, rfl, h⟩ := h
  cases hr : (w.ids.link tree).1 with
  | error e =>
    simp only [hr, Work.runs_bind, Work.not_runs_throw] at h
    simp at h
  | ok linked =>
    simp only [hr, Work.runs_bind, Work.runs_pure] at h
    obtain ⟨_, _, _, rfl, _⟩ := h
    refine ⟨((linkGraph w.ids.idAt tree).run.run 0).2, ?_⟩
    exact Prod.ext hr rfl

/-- How a compilation makes ids. -/
def Workspace.strategyFor (w : Workspace) :
    Work.IdChoice → Except UnknownStrategy IdStrategy
  | .current => .ok w.ids.strategy
  | .configured => w.settings.idStrategy none none

theorem runs_chooseIds {w v : Workspace} {u : Unit} (h : (Work.chooseIds none none).Runs w u v) :
    w.settings.idStrategy none none = .ok v.ids.strategy := by
  simp only [Work.chooseIds, Work.runs_bind, Work.runs_get, Work.runs_modify] at h
  obtain ⟨_, _, ⟨rfl, rfl⟩, strategy, _, h, rfl⟩ := h
  cases hs : w.settings.idStrategy none none with
  | error e => simp [hs, Work.ofExcept, Work.not_runs_throw] at h
  | ok found =>
    simp only [hs, Work.ofExcept, Work.runs_pure] at h
    obtain ⟨rfl, rfl⟩ := h
    rfl

/-- What a compilation gives: the tree of the program, or the tree linked. -/
theorem compile_cases {choice : Work.IdChoice} {linking : Bool} {w : Workspace} {program : Json}
    {g : Graph} (h : (Work.compile choice linking program).Returns w g) :
    ∃ tree, program.tree? = some tree ∧
      ((linking = false ∧ g = tree) ∨ (linking = true ∧ ∃ (s : IdSupply) (k : Nat),
        (choice = .current → s = w.ids) ∧ w.strategyFor choice = .ok s.strategy ∧
          (linkGraph s.idAt tree).Yields 0 g k)) := by
  obtain ⟨v, h⟩ := h
  simp only [Work.compile, Work.runs_bind, Work.runs_get] at h
  obtain ⟨_, _, ⟨rfl, rfl⟩, tree, u, hl, h⟩ := h
  obtain ⟨ht, hi, hs⟩ := runs_lowered hl
  refine ⟨tree, lowerProgram_eq_ok.mp ht, ?_⟩
  cases linking with
  | false =>
    simp only [Bool.false_eq_true, if_false, Work.runs_bind, Work.runs_get, Work.runs_pure] at h
    obtain ⟨_, _, ⟨rfl, _⟩, _, _, _, _, _, _, rfl, _⟩ := h
    exact .inl ⟨rfl, rfl⟩
  | true =>
    refine .inr ⟨rfl, ?_⟩
    cases choice with
    | current =>
      simp only [if_true, reduceCtorEq, if_false, Work.runs_bind, Work.runs_get,
        Work.runs_pure] at h
      obtain ⟨linked, _, hk, _, _, _, _, _, _, rfl, _⟩ := h
      obtain ⟨k, hy⟩ := runs_link hk
      refine ⟨w.ids, k, fun _ => rfl, rfl, ?_⟩
      rwa [hi] at hy
    | configured =>
      simp only [if_true, Work.runs_bind, Work.runs_get, Work.runs_pure] at h
      obtain ⟨_, u', hc, linked, _, hk, _, _, _, _, _, _, rfl, _⟩ := h
      obtain ⟨k, hy⟩ := runs_link hk
      refine ⟨u'.ids, k, by simp, ?_, hy⟩
      rw [Workspace.strategyFor, ← hs]
      exact runs_chooseIds hc

theorem compile_returns {w : Workspace} {program : Json} {g : Graph}
    (h : (Work.compile .current true program).Returns w g) :
    ∃ tree k, program.tree? = some tree ∧ (linkGraph w.ids.idAt tree).Yields 0 g k := by
  obtain ⟨tree, ht, ⟨hl, _⟩ | ⟨_, s, k, hs, _, hy⟩⟩ := compile_cases h
  · cases hl
  · rw [hs rfl] at hy
    exact ⟨tree, k, ht, hy⟩

/-- A workspace with default settings and numbered ids. -/
def labelledWorkspace (label : String) : Workspace :=
  .start { } (.start (fun n => toString n) (.sequential label))

end BlockFlow
