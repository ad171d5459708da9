import BlockFlow.Graph.Basic

/-! The JSON form of a graph. -/

namespace BlockFlow

/-- The field of an id, left out where there is none. -/
def idFields : Json → List (String × Json)
  | .null => []
  | id => [("id", id)]

mutual

def Block.toJson : Block → Json
  | .mk id type args contents =>
    .obj (idFields id ++
      [("type", .str type), ("args", Args.toJson args),
        ("contents", .arr (Content.listToJson contents))])

def Content.toJson : Content → Json
  | .block b => Block.toJson b
  | .group contents => .obj [("contents", .arr (Content.listToJson contents))]

def Arg.toJson : Arg → Json
  | .constant value => .obj [("type", .str "constant"), ("value", .str value)]
  | .block value => .obj [("type", .str "block"), ("value", .arr (Block.listToJson value))]

def Args.toJson : Args → Json
  | .list args => .arr (Arg.listToJson args)
  | .monitor descriptor => .obj descriptor
  | .call serviceId serviceAction values =>
    .obj [("service_id", serviceId), ("service_action", serviceAction),
      ("service_call_values", .arr (Arg.listToJson values))]

def Block.listToJson : List Block → List Json
  | [] => []
  | b :: rest => Block.toJson b :: Block.listToJson rest

def Content.listToJson : List Content → List Json
  | [] => []
  | c :: rest => Content.toJson c :: Content.listToJson rest

def Arg.listToJson : List Arg → List Json
  | [] => []
  | a :: rest => Arg.toJson a :: Arg.listToJson rest

end

def Graph.toJson (g : Graph) : Json := .arr (Block.listToJson g)

end BlockFlow
