import BlockFlow.Json.Basic
import BlockFlow.Path

/-! Diagnostics and the report that collects them. -/

namespace BlockFlow

/-- A diagnostic. Its hint may be any value, and `null` means that it has none. -/
structure Diagnostic where
  code : String
  path : String
  message : String
  hint : Json

/-- The diagnostics of a run. The hints are those of the warnings, each once. -/
structure Report where
  errors : List Diagnostic
  warnings : List Diagnostic
  hints : List Json

/-- What the compiler warns of. -/
inductive Warning
  | degenerateFork (path : Path) (least : Int)
  | unknownOperation (path : Path) (tag : String)
deriving DecidableEq

namespace Warning

def path : Warning → Path
  | degenerateFork path _ | unknownOperation path _ => path

def code : Warning → String
  | degenerateFork _ _ => "DEGENERATE_FORK"
  | unknownOperation _ _ => "UNKNOWN_OPERATION"

def message : Warning → String
  | degenerateFork _ least =>
    "Fork (op_fork_execution) with less than " ++ toString least ++ " outward paths"
  | unknownOperation _ tag => "Unknown operation: " ++ tag

def hint : Warning → String
  | degenerateFork _ _ =>
    "A fork needs at least two concurrent paths to run anything in parallel"
  | unknownOperation _ _ => "Only identifiers are stripped from unknown operations"

def diagnostic (w : Warning) : Diagnostic := ⟨w.code, w.path.text, w.message, .str w.hint⟩

end Warning

/-- A diagnostic as one line. -/
def Diagnostic.line (d : Diagnostic) : String :=
  d.code ++ " at " ++ (if d.path = "" then "root" else d.path) ++ ": " ++ d.message

namespace Report

def empty : Report := ⟨[], [], []⟩

def addError (r : Report) (d : Diagnostic) : Report := { r with errors := r.errors ++ [d] }

/-- Hints with one more, unless it is empty or there already. -/
def addHint (hints : List Json) (hint : Json) : List Json :=
  if hint.truthy && !hints.any (·.same hint) then hints ++ [hint] else hints

def addWarning (r : Report) (d : Diagnostic) : Report :=
  { r with warnings := r.warnings ++ [d], hints := addHint r.hints d.hint }

def warningCodes (r : Report) : List String := r.warnings.map Diagnostic.code

def hasErrors (r : Report) : Bool := !r.errors.isEmpty

def hasWarnings (r : Report) : Bool := !r.warnings.isEmpty

def isSuccess (r : Report) : Bool := !r.hasErrors

end Report

def Diagnostic.toJson (d : Diagnostic) : Json :=
  .obj [("code", .str d.code), ("path", .str d.path), ("message", .str d.message),
    ("hint", d.hint)]

def Report.toJson (r : Report) : Json :=
  .obj [("errors", .arr (r.errors.map Diagnostic.toJson)),
    ("warnings", .arr (r.warnings.map Diagnostic.toJson)),
    ("hints", .arr r.hints),
    ("summary", .obj [("total_errors", .int r.errors.length),
      ("total_warnings", .int r.warnings.length),
      ("has_errors", .bool r.hasErrors),
      ("has_warnings", .bool r.hasWarnings)])]

end BlockFlow
