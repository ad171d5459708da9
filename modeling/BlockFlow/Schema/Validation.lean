import BlockFlow.Json.Display
import BlockFlow.Schema.Basic

/-! Checking values against schemas. -/

namespace BlockFlow

/-- A step into a value or into a schema. -/
inductive Mark
  | name (name : String)
  | index (i : Nat)
deriving DecidableEq

/-- A violation of a keyword: where in the value and where in the schema, both from the place that
was checked. Behind a choice of which no branch fits stand the violations of the branches. -/
inductive Violation
  | mk (keyword : String) (path schemaPath : List Mark) (message : String)
    (context : List Violation)

namespace Violation

/-- A violation of the value itself. -/
def here (keyword : Keyword) (message : String) (context : List Violation) : Violation :=
  .mk keyword.name [] [.name keyword.name] message context

/-- The violation, seen from further up. -/
def inside (path schemaPath : List Mark) : Violation → Violation
  | .mk keyword p s message context => .mk keyword (path ++ p) (schemaPath ++ s) message context

end Violation

/-- How a value fares: against any schema, and against the definitions, each of which is worked out
once at most. -/
structure Verdict where
  against : Schema → List Violation
  defined : List (String × Thunk (List Violation))

namespace Verdict

/-- The verdict on a value that fares so against any schema. -/
def make (definitions : Definitions) (against : Schema → List Violation) : Verdict :=
  ⟨against, definitions.map fun (name, schema) => (name, Thunk.mk fun _ => against schema)⟩

/-- How the value fares against a definition; an unknown one asks for nothing. -/
def under (verdict : Verdict) (definition : String) : List Violation :=
  ((verdict.defined.lookup definition).map Thunk.get).getD []

theorem under_make (definitions : Definitions) (against : Schema → List Violation) (name : String) :
    (make definitions against).under name = ((definitions.lookup name).map against).getD [] := by
  simp only [make, under]
  induction definitions with
  | nil => rfl
  | cons d rest ih =>
    obtain ⟨key, schema⟩ := d
    simp only [List.map_cons, List.lookup_cons]
    cases name == key with
    | true => rfl
    | false => exact ih

end Verdict

/-- What a check may ask of the parts of a value. -/
structure Parts where
  items : List Verdict
  fields : List (String × Verdict)

namespace Schema

/-- The violations of items from the position `i` on. -/
def itemViolations (i : Nat) : List (List Violation) → List Violation
  | [] => []
  | violations :: rest =>
    violations.map (Violation.inside [.index i] [.name "items"]) ++ itemViolations (i + 1) rest

def missingNames (fields : List (String × Json)) (names : List String) : List String :=
  names.filter fun name => (fields.lookup name).isNone

variable (v : Json) (parts : Parts)

mutual

def keywordViolations : Keyword → List Violation
  | .type expected =>
    if expected.holds v then []
    else [.here (.type expected)
      (v.display ++ " is not of type " ++ displayText expected.name) []]
  | .required names =>
    match v with
    | .obj fields => (missingNames fields names).map fun name =>
        .here (.required names) (displayText name ++ " is a required property") []
    | _ => []
  | .properties expected =>
    expected.flatMap fun (name, schema) =>
      match parts.fields.lookup name with
      | some verdict =>
        (verdict.against schema).map (Violation.inside [.name name] [.name "properties", .name name])
      | none => []
  | .items each => itemViolations 0 (parts.items.map fun verdict => verdict.against each)
  | .itemsOf definition => itemViolations 0 (parts.items.map fun verdict => verdict.under definition)
  | .minLength least =>
    match v with
    | .str text =>
      if least ≤ text.length then []
      else [.here (.minLength least) (v.display ++
        if least = 1 then " should be non-empty" else " is too short") []]
    | _ => []
  | .const expected =>
    match v with
    | .str text =>
      if text = expected then []
      else [.here (.const expected) (displayText expected ++ " was expected") []]
    | _ => [.here (.const expected) (displayText expected ++ " was expected") []]
  | .not schema =>
    if (schemaViolations schema).isEmpty then
      [.here (.not schema)
        (v.display ++ " should not be valid under " ++ (Schema.toJson schema).display) []]
    else []
  | .oneOf branches =>
    let results := branchViolations 0 branches
    let fitting := (branches.zip results).filterMap fun (schema, violations) =>
      if violations.isEmpty then some schema else none
    match fitting with
    | [] =>
      [.here (.oneOf branches) (v.display ++ " is not valid under any of the given schemas")
        results.flatten]
    | [_] => []
    | first :: others =>
      [.here (.oneOf branches) (v.display ++ " is valid under each of " ++
        ", ".intercalate ((others ++ [first]).map fun s => (Schema.toJson s).display)) []]

def schemaViolations : List Keyword → List Violation
  | [] => []
  | k :: rest => keywordViolations k ++ schemaViolations rest

/-- The violations of each branch from the position `i` on. -/
def branchViolations (i : Nat) : List (List Keyword) → List (List Violation)
  | [] => []
  | schema :: rest =>
    (schemaViolations schema).map (Violation.inside [] [.index i]) :: branchViolations (i + 1) rest

end

end Schema

mutual

/-- The verdict on a value, its parts judged first. -/
def Json.judge (definitions : Definitions) : Json → Verdict
  | .arr items =>
    .make definitions
      (Schema.schemaViolations (.arr items) ⟨Json.judgeItems definitions items, []⟩)
  | .obj fields =>
    .make definitions
      (Schema.schemaViolations (.obj fields) ⟨[], Json.judgeFields definitions fields⟩)
  | v => .make definitions (Schema.schemaViolations v ⟨[], []⟩)

def Json.judgeItems (definitions : Definitions) : List Json → List Verdict
  | [] => []
  | item :: rest => Json.judge definitions item :: Json.judgeItems definitions rest

def Json.judgeFields (definitions : Definitions) : List (String × Json) → List (String × Verdict)
  | [] => []
  | (name, value) :: rest =>
    (name, Json.judge definitions value) :: Json.judgeFields definitions rest

end

/-- A violation as it is reported. -/
structure SchemaIssue where
  path : List Mark
  schemaPath : List Mark
  keyword : String
  message : String
deriving DecidableEq

/-- The code of every schema issue. -/
def SchemaIssue.code : String := "SCHEMA_VALIDATION_ERROR"

/-- A place in a document. -/
def documentPath (path : List Mark) : String :=
  "root" ++ String.join (path.map fun
    | .name name => "." ++ name
    | .index i => "[" ++ toString i ++ "]")

mutual

/-- A violation and those behind it, with paths from the root of the document. -/
def Violation.issues (base : List Mark) : Violation → List SchemaIssue
  | .mk keyword path schemaPath message context =>
    ⟨base ++ path, schemaPath, keyword, message⟩ :: Violation.listIssues (base ++ path) context

def Violation.listIssues (base : List Mark) : List Violation → List SchemaIssue
  | [] => []
  | v :: rest => Violation.issues base v ++ Violation.listIssues base rest

end

/-- A schema and the definitions that it refers to. -/
structure SchemaDocument where
  schema : Schema
  definitions : Definitions

namespace SchemaDocument

def violations (d : SchemaDocument) (v : Json) : List Violation :=
  (v.judge d.definitions).against d.schema

def accepts (d : SchemaDocument) (v : Json) : Bool := (d.violations v).isEmpty

/-- The first violation, with those behind it. -/
def issues (d : SchemaDocument) (v : Json) : List SchemaIssue :=
  match d.violations v with
  | [] => []
  | first :: _ => first.issues []

end SchemaDocument

end BlockFlow
