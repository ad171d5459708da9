import Mathlib
import BlockFlow.Proofs.Graph.Addresses
import BlockFlow.Workspace

/-! Warnings and the places that they name. Parts of a tree lie in separate regions of places, so
warnings from separate parts name different places. -/

namespace BlockFlow

namespace Path

/-- A place is at or below another one. -/
def Below (p q : Path) : Prop := q.base = p.base ∧ p.steps <+: q.steps

/-- A place is at or below a position in a list, `i` or a later one. -/
def BelowFrom (p : Path) (i : Nat) (q : Path) : Prop := ∃ j, i ≤ j ∧ (p.index j).Below q

variable {p q : Path} {s t : Step} {i : Nat}

theorem below_refl (p : Path) : p.Below p := ⟨rfl, List.prefix_refl _⟩

theorem Below.of_push (h : (p.push s).Below q) : p.Below q :=
  ⟨h.1, (List.prefix_append _ _).trans h.2⟩

/-- No place is below two different steps from the same place. -/
theorem Below.push_inj (hs : (p.push s).Below q) (ht : (p.push t).Below q) : s = t := by
  have heq : p.steps ++ [s] = p.steps ++ [t] := by
    refine (List.prefix_of_prefix_length_le hs.2 ht.2 ?_).eq_of_length ?_ <;> simp [push]
  simpa using heq

theorem not_below_push (p : Path) (s : Step) : ¬ (p.push s).Below p := by
  intro h
  have hlength := h.2.length_le
  simp [push] at hlength

theorem not_contents_and_args (h : p.contents.Below q) : ¬ p.args.Below q := by
  intro h'
  exact absurd (h.push_inj h') (by decide)

theorem BelowFrom.below (h : p.BelowFrom i q) : p.Below q := by
  obtain ⟨j, _, hj⟩ := h
  exact hj.of_push

theorem BelowFrom.head (h : (p.index i).Below q) : p.BelowFrom i q := ⟨i, le_rfl, h⟩

theorem BelowFrom.tail (h : p.BelowFrom (i + 1) q) : p.BelowFrom i q := by
  obtain ⟨j, hij, hj⟩ := h
  exact ⟨j, by omega, hj⟩

theorem Below.not_belowFrom (h : (p.index i).Below q) : ¬ p.BelowFrom (i + 1) q := by
  rintro ⟨j, hij, hj⟩
  have hstep := h.push_inj hj
  simp only [Step.index.injEq] at hstep
  omega

theorem eq_of_below {r : Path} (hp : r.Below p) (hq : r.Below q) (h : p.text = q.text) : p = q :=
  Path.eq_of_text (hp.1.trans hq.1.symm) h

end Path

namespace Traced

variable {ε α β : Type} {kind : Warning → Prop} {A B C : Path → Prop}

/-- The warnings are of one kind, and name different places of a region. -/
structure Warns (kind : Warning → Prop) (region : Path → Prop) (x : Traced Warning ε α) : Prop where
  kinds : ∀ w ∈ x.trace, kind w
  places : ∀ w ∈ x.trace, region w.path
  distinct : (x.trace.map Warning.path).Nodup

theorem Warns.mono {x : Traced Warning ε α} (h : x.Warns kind A) (hAC : ∀ p, A p → C p) :
    x.Warns kind C :=
  ⟨h.kinds, fun w hw => hAC _ (h.places w hw), h.distinct⟩

theorem warns_pure (a : α) : (Pure.pure a : Traced Warning ε α).Warns kind C :=
  ⟨by simp, by simp, by simp⟩

theorem warns_fail (e : ε) : (fail e : Traced Warning ε α).Warns kind C :=
  ⟨by simp [fail], by simp [fail], by simp [fail]⟩

theorem warns_emit {w : Warning} (hk : kind w) : (emit w : Traced Warning ε Unit).Warns kind
    (· = w.path) :=
  ⟨by simpa [emit] using hk, by simp [emit], by simp [emit]⟩

theorem Warns.bind {x : Traced Warning ε α} {f : α → Traced Warning ε β} (hx : x.Warns kind A)
    (hf : ∀ a, (f a).Warns kind B) (hAB : ∀ p, A p → ¬ B p) :
    (x >>= f).Warns kind fun p => A p ∨ B p := by
  obtain ⟨trace, e | a⟩ := x
  · exact Warns.mono ⟨hx.kinds, hx.places, hx.distinct⟩ fun p => .inl
  have ha := hf a
  refine ⟨?_, ?_, ?_⟩
  · intro w hw
    exact (List.mem_append.mp hw).elim (hx.kinds w) (ha.kinds w)
  · intro w hw
    exact (List.mem_append.mp hw).imp (hx.places w) (ha.places w)
  · change ((trace ++ (f a).trace).map Warning.path).Nodup
    rw [List.map_append]
    refine hx.distinct.append ha.distinct ?_
    intro p hp hp'
    obtain ⟨w, hw, rfl⟩ := List.mem_map.mp hp
    obtain ⟨w', hw', he⟩ := List.mem_map.mp hp'
    exact hAB _ (hx.places w hw) (he ▸ ha.places w' hw')

theorem Warns.bind_pure {x : Traced Warning ε α} (hx : x.Warns kind A) (f : α → β) :
    (x >>= fun a => Pure.pure (f a)).Warns kind A :=
  (hx.bind (B := fun _ => False) (fun _ => warns_pure _) fun _ _ => id).mono
    fun _ h => h.elim id False.elim

/-- The member of a list at the position `i`, and then the members behind it. -/
theorem Warns.cons {γ : Type} {x : Traced Warning ε α} {y : Traced Warning ε β} {p : Path} {i : Nat}
    (hx : x.Warns kind (p.index i).Below) (hy : y.Warns kind (p.BelowFrom (i + 1)))
    (f : α → β → γ) :
    (x >>= fun a => y >>= fun b => Pure.pure (f a b)).Warns kind (p.BelowFrom i) := by
  refine (hx.bind (fun a => hy.bind_pure (f a)) ?_).mono ?_
  · exact fun q hq => hq.not_belowFrom
  · rintro q (hq | hq)
    · exact .head hq
    · exact hq.tail

end Traced

/-! ### Warnings in the report -/

/-- Work that leaves warnings notes all of them, whether it succeeds or fails. -/
theorem Work.run_ofTraced {ε α : Type} (component : Component) (wrap : ε → Failure)
    (x : Traced Warning ε α) (w : Workspace) :
    ((Work.ofTraced component wrap x).run.run w).run =
      (x.outcome.mapError wrap, x.trace.foldl (Workspace.warn component) w) := by
  obtain ⟨trace, e | a⟩ := x <;> rfl

theorem warnings_foldl_warn (component : Component) (warnings : List Warning) (w : Workspace) :
    (warnings.foldl (Workspace.warn component) w).report.warnings =
      w.report.warnings ++ warnings.map Warning.diagnostic := by
  induction warnings generalizing w with
  | nil => simp
  | cons warning rest ih =>
    rw [List.foldl_cons, ih, List.map_cons, List.append_cons]
    rfl

/-- Warnings at different places below one place have different paths in the report. -/
theorem Traced.Warns.distinct_texts {ε α : Type} {kind : Warning → Prop} {p : Path}
    {x : Traced Warning ε α} (h : x.Warns kind p.Below) :
    ((x.trace.map Warning.diagnostic).map Diagnostic.path).Nodup := by
  have htexts : (x.trace.map Warning.diagnostic).map Diagnostic.path =
      (x.trace.map Warning.path).map Path.text := by
    simp [Warning.diagnostic]
  rw [htexts]
  refine h.distinct.map_on ?_
  intro a ha b hb hab
  obtain ⟨w, hw, rfl⟩ := List.mem_map.mp ha
  obtain ⟨v, hv, rfl⟩ := List.mem_map.mp hb
  exact Path.eq_of_below (h.places w hw) (h.places v hv) hab

end BlockFlow
