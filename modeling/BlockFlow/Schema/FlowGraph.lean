import BlockFlow.Schema.Validation

/-! The schema of compiled flow graphs. -/

namespace BlockFlow.FlowGraphSchema

def nonEmptyText : Schema := [.type .string, .minLength 1]

def arrayOf (definition : String) : Schema := [.type .array, .itemsOf definition]

def callServiceArgs : Schema :=
  [.type .object, .required ["service_id", "service_action", "service_call_values"],
    .properties [("service_call_values", arrayOf "CompiledArg")]]

/-- Any object that is not taken for a service call. -/
def monitorArgs : Schema := [.type .object, .not [.required ["service_call_values"]]]

def constantArg : Schema :=
  [.type .object, .required ["type", "value"],
    .properties [("type", [.const "constant"]), ("value", [.type .string])]]

def blockArg : Schema :=
  [.type .object, .required ["type", "value"],
    .properties [("type", [.const "block"]), ("value", arrayOf "CompiledBlock")]]

def compiledArg : Schema := [.oneOf [constantArg, blockArg]]

def compiledBlock : Schema :=
  [.type .object, .required ["type", "args", "contents"],
    .properties [("id", nonEmptyText), ("type", nonEmptyText),
      ("args", [.oneOf [arrayOf "CompiledArg", callServiceArgs, monitorArgs]]),
      ("contents", arrayOf "Content")]]

def contentBlock : Schema :=
  [.type .object, .required ["contents"], .not [.required ["type"]],
    .properties [("contents", arrayOf "Content")]]

def content : Schema := [.oneOf [compiledBlock, contentBlock]]

def definitions : Definitions :=
  [("CompiledBlock", compiledBlock), ("CompiledArg", compiledArg), ("Content", content)]

/-- A graph is an array of blocks. -/
def document : SchemaDocument := ⟨arrayOf "CompiledBlock", definitions⟩

/-- What the schema says of itself. -/
def annotations : List (String × Json) :=
  [("title", .str "Compiled Flow Graph"),
    ("description", .str "Linked block graph produced by the block flow compiler"),
    ("$id", .str "https://weave.dev/schemas/compiled-flow-graph.json"),
    ("$schema", .str "https://json-schema.org/draft/2020-12/schema")]

end BlockFlow.FlowGraphSchema
