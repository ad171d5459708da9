import BlockFlow.Json.Reader
import BlockFlow.Schema.FlowGraph

/-! Schemas from JSON documents. -/

namespace BlockFlow

/-- A schema as loaded: its document, and what it asks for. -/
structure LoadedSchema where
  source : Json
  document : SchemaDocument

/-- Why a loaded schema cannot be used. -/
inductive SchemaError
  | notLoaded
  | noAnnotations (source : Json)

def SchemaError.message : SchemaError → String
  | notLoaded => "Schema not loaded"
  | noAnnotations source => "'" ++ source.kindWord ++ "' object has no attribute 'get'"

namespace LoadedSchema

/-- The schema of compiled flow graphs. -/
def flowGraph : LoadedSchema := ⟨.obj FlowGraphSchema.annotations, FlowGraphSchema.document⟩

def ofJson (v : Json) : LoadedSchema := ⟨v, ⟨Schema.ofJson v, []⟩⟩

/-- What a schema says of itself; an empty one says nothing. -/
def info (s : LoadedSchema) : Except SchemaError (List (String × Json)) :=
  if s.source.truthy then
    match s.source with
    | .obj fields =>
      .ok [("title", Json.fieldOrNull fields "title"),
        ("description", Json.fieldOrNull fields "description"),
        ("id", Json.fieldOrNull fields "$id"), ("schema", Json.fieldOrNull fields "$schema")]
    | v => .error (.noAnnotations v)
  else .ok []

/-- The issues of a value. An empty schema checks nothing. -/
def issues (s : LoadedSchema) (v : Json) : Except SchemaError (List SchemaIssue) :=
  if s.source.truthy then .ok (s.document.issues v) else .error .notLoaded

end LoadedSchema

end BlockFlow
