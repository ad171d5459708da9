import Mathlib
import BlockFlow.Proofs.Canonical.Strictness
import BlockFlow.Proofs.Warnings

/-! The warnings of canonicalization. Each is of an unknown operation, at the address of a block of
that type, and no two have the same path. -/

namespace BlockFlow

open Canonicalizing

/-- A warning of an operation that is not known. -/
def IsUnknownWarning (w : Warning) : Prop :=
  ∃ tag, w = .unknownOperation w.path tag ∧ TagKind.ofTag tag = .unknown

theorem kind_of_treatment {tag : String} (h : Treatment.ofTag tag = .unknown) :
    TagKind.ofTag tag = .unknown := by
  cases hk : TagKind.ofTag tag with
  | unknown => rfl
  | custom => simp [Treatment.ofTag, hk] at h
  | known operation => cases operation <;> simp [Treatment.ofTag, hk] at h <;> contradiction

/-! ### Places of the warnings -/

section

variable {strict : Bool} {typeOf : String → Option String}

/-- Arguments are visited before contents, and lie elsewhere. -/
theorem Traced.Warns.args_contents {ε α β γ : Type} {kind : Warning → Prop} {path : Path}
    {x : Traced Warning ε α} {y : Traced Warning ε β} (hx : x.Warns kind path.args.Below)
    (hy : y.Warns kind (path.contents.BelowFrom 0)) (f : α → β → γ) :
    (x >>= fun a => y >>= fun b => pure (f a b)).Warns kind path.Below := by
  refine (hx.bind (fun a => hy.bind_pure (f a)) ?_).mono ?_
  · exact fun q hq hq' => Path.not_contents_and_args hq'.below hq
  · exact fun q hq => hq.elim (fun h => h.of_push) (fun h => h.below.of_push)

mutual

theorem canonicalBlock_warns : ∀ (b : Block) (path : Path),
    (canonicalBlock strict typeOf path b).Warns IsUnknownWarning path.Below
  | .mk id type args contents, path => by
    have hargs := canonicalArgs_warns args path
    have hcall := canonicalCall_warns args path
    have hcontents := canonicalContents_warns contents path.contents 0
    rw [canonicalBlock]
    cases ht : Treatment.ofTag type with
    | stripped => exact Traced.warns_pure _
    | ordered => exact hargs.args_contents hcontents _
    | serviceCall => exact (hcall.bind_pure _).mono fun _ hq => hq.of_push
    | commutative => exact (hargs.bind_pure _).mono fun _ hq => hq.of_push
    | fork => exact hargs.args_contents hcontents _
    | unknown =>
      cases strict with
      | true => exact Traced.warns_fail _
      | false =>
        have hw : IsUnknownWarning (.unknownOperation path type) :=
          ⟨type, rfl, kind_of_treatment ht⟩
        refine ((Traced.warns_emit hw).bind_pure _).mono ?_
        rintro _ rfl
        exact Path.below_refl _

theorem canonicalArgs_warns : ∀ (args : Args) (path : Path),
    (canonicalArgs strict typeOf path args).Warns IsUnknownWarning path.args.Below
  | .list args, path => by
    rw [canonicalArgs]
    exact ((canonicalArgList_warns args path.args 0).bind_pure _).mono fun _ hq => hq.below
  | .monitor _, path => by
    rw [canonicalArgs_monitor]
    exact Traced.warns_pure _
  | .call _ _ _, path => by
    rw [canonicalArgs_call]
    exact Traced.warns_pure _

theorem canonicalCall_warns : ∀ (args : Args) (path : Path),
    (canonicalCall strict typeOf path args).Warns IsUnknownWarning path.args.Below
  | .list _, path => by
    rw [canonicalCall_list]
    exact Traced.warns_pure _
  | .monitor _, path => by
    rw [canonicalCall_monitor]
    exact Traced.warns_pure _
  | .call _ _ values, path => by
    rw [canonicalCall]
    exact ((canonicalArgList_warns values path.callValues 0).bind_pure _).mono
      fun _ hq => hq.below.of_push

theorem canonicalArgList_warns : ∀ (args : List Arg) (path : Path) (i : Nat),
    (canonicalArgList strict typeOf path i args).Warns IsUnknownWarning (path.BelowFrom i)
  | [], path, i => by
    rw [canonicalArgList]
    exact Traced.warns_pure _
  | .constant _ :: rest, path, i => by
    rw [canonicalArgList]
    exact ((canonicalArgList_warns rest path (i + 1)).bind_pure _).mono fun _ hq => hq.tail
  | .block value :: rest, path, i => by
    rw [canonicalArgList]
    have hvalue := (canonicalBlocks_warns value (path.index i).value 0).mono
      fun _ hq => hq.below.of_push
    exact hvalue.cons (canonicalArgList_warns rest path (i + 1)) _

theorem canonicalContents_warns : ∀ (contents : List Content) (path : Path) (i : Nat),
    (canonicalContents strict typeOf path i contents).Warns IsUnknownWarning (path.BelowFrom i)
  | [], path, i => by
    rw [canonicalContents]
    exact Traced.warns_pure _
  | .block b :: rest, path, i => by
    rw [canonicalContents]
    exact (canonicalBlock_warns b (path.index i)).cons
      (canonicalContents_warns rest path (i + 1)) _
  | .group contents :: rest, path, i => by
    rw [canonicalContents]
    have hbody := (canonicalContents_warns contents (path.index i).contents 0).mono
      fun _ hq => hq.below.of_push
    exact hbody.cons (canonicalContents_warns rest path (i + 1)) _

theorem canonicalBlocks_warns : ∀ (blocks : List Block) (path : Path) (i : Nat),
    (canonicalBlocks strict typeOf path i blocks).Warns IsUnknownWarning (path.BelowFrom i)
  | [], path, i => by
    rw [canonicalBlocks]
    exact Traced.warns_pure _
  | b :: rest, path, i => by
    rw [canonicalBlocks]
    exact (canonicalBlock_warns b (path.index i)).cons (canonicalBlocks_warns rest path (i + 1)) _

end

end

/-! ### Graphs -/

theorem Graph.canonical_warns (strict : Bool) (g : Graph) :
    (g.canonical strict).Warns IsUnknownWarning Path.top.Below := by
  unfold Graph.canonical
  split
  · exact Traced.warns_fail _
  · exact (canonicalBlocks_warns g .top 0).mono fun _ hq => hq.below

end BlockFlow
