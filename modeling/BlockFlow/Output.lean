import BlockFlow.Calendar
import BlockFlow.Graph.Document
import BlockFlow.Json.Printer
import BlockFlow.Report
import BlockFlow.Schema.Validation

/-! Results together with the report of the run that produced them. -/

namespace BlockFlow

/-- Something wrong with a result. -/
structure Finding where
  code : String
  path : String
  message : String
  details : Json

def Finding.toJson (f : Finding) : Json :=
  .obj [("code", .str f.code), ("path", .str f.path), ("message", .str f.message),
    ("meta", if f.details.truthy then f.details else .obj [])]

def Mark.toJson : Mark → Json
  | .name n => .str n
  | .index i => .int i

def SchemaIssue.finding (i : SchemaIssue) : Finding where
  code := SchemaIssue.code
  path := documentPath i.path
  message := i.message
  details := .obj [("schema_path", .arr (i.schemaPath.map Mark.toJson)), ("validator", .str i.keyword)]

namespace Output

/-- A compiled graph with its report; what is wrong with it is listed last. -/
def compiled (now : DateTime) (g : Graph) (report : Report) (findings : List Finding) : Json :=
  .obj ([("success", .bool (report.isSuccess && findings.isEmpty)),
    ("timestamp", .str now.reportText),
    ("stage", .str "compilation"),
    ("compiled_graph", .obj [("root_blocks", .int g.length),
      ("total_blocks", .int g.blocks.length),
      ("structure", g.toJson)]),
    ("report", report.toJson)] ++
    if findings.isEmpty then [] else [("schema_errors", .arr (findings.map Finding.toJson))])

def canonical (now : DateTime) (form : GraphDocument) (report : Report) : Json :=
  .obj [("success", .bool report.isSuccess),
    ("timestamp", .str now.reportText),
    ("stage", .str "canonicalization"),
    ("canonical", form.toJson),
    ("report", report.toJson)]

end Output

end BlockFlow
