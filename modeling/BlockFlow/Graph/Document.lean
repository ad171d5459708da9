import BlockFlow.Graph.Printer

/-! Documents that hold graphs. -/

namespace BlockFlow

/-- One graph, or a collection of graphs. -/
inductive GraphDocument
  | single (g : Graph)
  | collection (graphs : List Graph)

def GraphDocument.toJson : GraphDocument → Json
  | single g => g.toJson
  | collection graphs => .arr (graphs.map Graph.toJson)

end BlockFlow
