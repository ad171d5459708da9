import Mathlib
import BlockFlow.Proofs.Canonical.Warnings
import BlockFlow.Proofs.Linking.Refusals

/-! The paths of diagnostics are addresses in the JSON form of the graph that is worked on. -/

namespace BlockFlow

open Linking

/-- The report that some work leaves, whether it succeeds or fails. -/
def Work.reportAfter {α : Type} (x : Work α) (w : Workspace) : Report := (x.run.run w).run.2.report

/-! ### Canonicalization -/

theorem Graph.exists_named {g : Graph} {strict : Bool} {w : Warning}
    (hw : w ∈ (g.canonical strict).trace) :
    ∃ b : Block, w = .unknownOperation w.path b.type ∧ TagKind.ofTag b.type = .unknown ∧
      g.toJson.atAddress? w.path.text = some b.toJson := by
  have hwarns := g.canonical_warns strict
  obtain ⟨tag, htag, hunknown⟩ := hwarns.kinds w hw
  have hkeyed : g.Keyed := by
    refine exists_blockKeys_iff.mp ?_
    unfold Graph.canonical at hw
    split at hw
    · cases hw
    · next keys hkeys => exact ⟨keys, hkeys⟩
  obtain ⟨b, hb, hlead⟩ := Graph.canonical_warnsOf hkeyed w hw
  obtain rfl : tag = b.type := (Warning.unknownOperation.inj (htag.symm.trans hb)).2
  exact ⟨b, hb, hunknown, hlead.atAddress? (hwarns.places w hw).1⟩

theorem Work.reportAfter_canonicalize (asked : Bool) (g : Graph) (w : Workspace) :
    ((Work.canonicalize (some asked) g).reportAfter w).warnings =
      w.report.warnings ++ (g.canonical asked).trace.map Warning.diagnostic := by
  have hrun := Work.run_ofTraced .canonicalizer .canonical (g.canonical asked) w
  have hreport : (Work.canonicalize (some asked) g).reportAfter w =
      ((g.canonical asked).trace.foldl (Workspace.warn .canonicalizer) w).report :=
    congrArg (fun result => result.2.report) hrun
  rw [hreport, warnings_foldl_warn]

/-! ### Linking -/

theorem Linking.yields_or_fails {α : Type} (x : Linking α) (n : Nat) :
    (∃ a k, x.Yields n a k) ∨ ∃ e k, x.Fails n e k := by
  rcases hx : (x.run.run n).run with ⟨e | a, k⟩
  · exact .inr ⟨e, k, hx⟩
  · exact .inl ⟨a, k, hx⟩

/-- Linking adds to the errors of the report those of the error that it fails with. -/
theorem Work.reportAfter_link (tree : Graph) (w : Workspace) :
    ((Work.link tree).reportAfter w).errors = w.report.errors ∨
      ∃ e k, (linkGraph w.ids.idAt tree).Fails 0 e k ∧
        ((Work.link tree).reportAfter w).errors = w.report.errors ++ e.diagnostics := by
  rcases (linkGraph w.ids.idAt tree).yields_or_fails 0 with ⟨g, k, hy⟩ | ⟨e, k, hf⟩
  · obtain ⟨v, hruns, hreport⟩ := Work.runs_link_of_yields hy
    left
    rw [Work.reportAfter, hruns, hreport]
  · obtain ⟨v, hfails, hreport⟩ := Work.fails_link hf
    right
    refine ⟨e, k, hf, ?_⟩
    rw [Work.reportAfter, hfails, hreport]

/-- Of the errors of linking, only a fork in an argument has this code. -/
theorem LinkError.eq_forkInArgument {e : LinkError} {d : Diagnostic} (hd : d ∈ e.diagnostics)
    (hcode : d.code = "FORK_IN_ARGUMENT") :
    ∃ path, e = .forkInArgument path ∧ d.path = path.text := by
  cases e with
  | forkInArgument path =>
    obtain rfl := List.mem_singleton.mp hd
    exact ⟨path, rfl, rfl⟩
  | broken problems =>
    obtain ⟨problem, _, rfl⟩ := List.mem_map.mp hd
    simp at hcode
  | forkArguments _ => cases hd
  | badKey _ => cases hd

/-- The path of a warning of lenient canonicalization is the address of a block in the JSON form of
the graph, the type of this block is the unknown operation that the message names, and different
warnings have different paths. The path of an error of a fork in an argument is the address of a
block argument in the JSON form of the tree, with a fork in its value. -/
theorem diagnostic_paths_are_addresses :
    (∀ (g : Graph) (w : Workspace), ∃ warnings,
      ((Work.canonicalize (some false) g).reportAfter w).warnings = w.report.warnings ++ warnings ∧
        (∀ d ∈ warnings, d.code = "UNKNOWN_OPERATION" ∧ ∃ b : Block,
          g.toJson.atAddress? d.path = some b.toJson ∧ TagKind.ofTag b.type = .unknown ∧
            d.message = "Unknown operation: " ++ b.type) ∧
        (warnings.map Diagnostic.path).Nodup) ∧
    ∀ (least : Int) (path : Path) (program : Json) (tree : Graph) (w : Workspace),
      (lowerProgram least path program).outcome = .ok tree →
        ∃ errors, ((Work.link tree).reportAfter w).errors = w.report.errors ++ errors ∧
          ∀ d ∈ errors, d.code = "FORK_IN_ARGUMENT" → ∃ value,
            tree.toJson.atAddress? d.path = some (Arg.block value).toJson ∧
              ∃ b ∈ value, b.type = Operation.forkExecution.tag := by
  constructor
  · intro g w
    have hwarns := g.canonical_warns false
    refine ⟨_, Work.reportAfter_canonicalize false g w, ?_, hwarns.distinct_texts⟩
    intro d hd
    obtain ⟨warning, hw, rfl⟩ := List.mem_map.mp hd
    obtain ⟨b, hb, hunknown, haddress⟩ := Graph.exists_named hw
    refine ⟨?_, b, haddress, hunknown, ?_⟩ <;>
    · rw [hb]
      rfl
  · intro least path program tree w h
    rcases Work.reportAfter_link tree w with hsame | ⟨e, k, hfails, hadded⟩
    · exact ⟨[], by rw [hsame, List.append_nil], by simp⟩
    · refine ⟨e.diagnostics, hadded, ?_⟩
      intro d hd hcode
      obtain ⟨fault, rfl, hpath⟩ := LinkError.eq_forkInArgument hd hcode
      obtain ⟨hbase, value, hlead, b, hb, hfork⟩ :=
        linkGraph_locates (isTree_of_lowerProgram h) hfails
      exact ⟨value, by rw [hpath, hlead.atAddress? hbase], b, hb, Block.isFork_iff.mp hfork⟩

/-- Behind a fork without faults, a call on the path of another one has a fork among its values. -/
def forkAmongValues : Json :=
  .arr [.arr [.str "op_fork_execution", .arr [], .arr [.arr [], .arr []]],
    .arr [.str "op_fork_execution", .arr [.str "exit-when-first-completed"],
      .arr [.arr [], .arr [.arr [.str "x"], .arr [.str "command_call_service",
        .obj [("service_call_values",
          .arr [.str "v", .arr [.str "op_fork_execution"]])]]]]]]

def forkAmongValuesTree : Graph :=
  [.mk .null "op_fork_execution" (.list []) [.group [], .group []],
    .mk .null "op_fork_execution" (.list [.constant "exit-when-first-completed"])
      [.group [], .group [.block (.mk .null "x" (.list []) []),
        .block (.mk .null "command_call_service" (.call .null .null
          [.constant "v", .block [.mk .null "op_fork_execution" (.list []) []]]) [])]]]

theorem hidden_faults_addressed :
    (∃ d ∈ ((Work.canonicalize (some false) hiddenOperation).reportAfter
        (labelledWorkspace "b")).warnings,
      d.path = "[0].contents[0].contents[0].args[1].value[0]" ∧
        ∃ b : Block, hiddenOperation.toJson.atAddress? d.path = some b.toJson ∧
          TagKind.ofTag b.type = .unknown ∧ d.message = "Unknown operation: " ++ b.type) ∧
    (lowerProgram 2 .top forkAmongValues).outcome = .ok forkAmongValuesTree ∧
    ∃ d ∈ ((Work.link forkAmongValuesTree).reportAfter (labelledWorkspace "b")).errors,
      d.path = "[1].contents[1].contents[1].args.service_call_values[1]" ∧
        ∃ value, forkAmongValuesTree.toJson.atAddress? d.path = some (Arg.block value).toJson ∧
          ∃ b ∈ value, b.type = Operation.forkExecution.tag := by
  have hlowered : (lowerProgram 2 .top forkAmongValues).outcome = .ok forkAmongValuesTree := rfl
  obtain ⟨hcanonical, hlink⟩ := diagnostic_paths_are_addresses
  obtain ⟨warnings, hwarnings, hnamed, -⟩ := hcanonical hiddenOperation (labelledWorkspace "b")
  obtain ⟨errors, herrors, hforks⟩ := hlink 2 .top _ _ (labelledWorkspace "b") hlowered
  have hfirst : warnings.head? =
      some (Warning.unknownOperation ⟨"", [.index 0, .contents, .index 0, .contents, .index 0,
        .args, .index 1, .value, .index 0]⟩ "mystery").diagnostic := by
    rw [← List.nil_append warnings]
    exact congrArg List.head? (hwarnings.symm.trans rfl)
  have hfault : errors.head? = (LinkError.forkInArgument ⟨"", [.index 1, .contents, .index 1,
      .contents, .index 1, .args, .callValues, .index 1]⟩).diagnostics.head? := by
    rw [← List.nil_append errors]
    exact congrArg List.head? (herrors.symm.trans rfl)
  have hwarning := List.mem_of_head? hfirst
  have herror := List.mem_of_head? hfault
  refine ⟨⟨_, hwarnings ▸ List.mem_append_right _ hwarning, by decide, (hnamed _ hwarning).2⟩,
    hlowered, _, herrors ▸ List.mem_append_right _ herror, by decide, hforks _ herror rfl⟩

end BlockFlow
