import BlockFlow.Graph.Basic
import BlockFlow.Json.Display

/-! Reading graphs from their JSON form. -/

namespace BlockFlow

/-- Why a value is no graph. -/
inductive GraphError
  | notAGraph
  | notABlock (found : Json)
  | notContent (found : Json)
  | notAnArgument (found : Json)
  | unknownArgument (type : Json)
  | badArguments (found : Json)
  | notIterable (found : Json)

def GraphError.message : GraphError → String
  | notAGraph => "Compiled flow graph must be a JSON array"
  | notABlock found =>
    "Compiled block must be an object with a 'type', found: " ++ found.display
  | notContent found => "Block content must be an object, found: " ++ found.display
  | notAnArgument found => "Compiled argument must be an object, found: " ++ found.display
  | unknownArgument type => "Unknown compiled argument type: " ++ type.display
  | badArguments found => "Block arguments must be a list or an object, found: " ++ found.display
  | notIterable found => "'" ++ found.kindWord ++ "' object is not iterable"

/-- The elements of a value that is no array but stands where one belongs. An empty value has none;
those of a text are its characters and those of an object its names, which are no parts of a
graph. -/
def noElements {α : Type} (complaint : Json → GraphError) : Json → Except GraphError (List α)
  | .str text =>
    match text.toList with
    | [] => .ok []
    | c :: _ => .error (complaint (.str (String.singleton c)))
  | .obj [] => .ok []
  | .obj ((name, _) :: _) => .error (complaint (.str name))
  | v => if v.truthy then .error (.notIterable v) else .ok []

mutual

def Block.ofJson : Json → Except GraphError Block
  | .obj fields =>
    match fields.lookup "type" with
    | some (.str type) => do
      let args ← Args.ofFields type fields
      let contents ← Content.listOfFields fields
      return .mk (Json.fieldOrNull fields "id") type args contents
    | _ => .error (.notABlock (.obj fields))
  | v => .error (.notABlock v)

/-- An object with a type is a block, one without is a body. -/
def Content.ofJson : Json → Except GraphError Content
  | .obj fields =>
    if (Json.fieldOrNull fields "type").truthy then
      match fields.lookup "type" with
      | some (.str type) => do
        let args ← Args.ofFields type fields
        let contents ← Content.listOfFields fields
        return .block (.mk (Json.fieldOrNull fields "id") type args contents)
      | _ => .error (.notABlock (.obj fields))
    else do return .group (← Content.listOfFields fields)
  | v => .error (.notContent v)

/-- The value of a constant is kept as its text. -/
def Arg.ofJson : Json → Except GraphError Arg
  | .obj fields =>
    match Json.fieldOrNull fields "type" with
    | .str "constant" => .ok (.constant ((fields.lookup "value").getD (.str "")).plainText)
    | .str "block" => do return .block (← Block.listOfFields fields)
    | type => .error (.unknownArgument type)
  | v => .error (.notAnArgument v)

def Args.ofJson (type : String) : Json → Except GraphError Args
  | .null => .ok (.list [])
  | .arr items => do return .list (← Arg.listOfItems items)
  | .obj fields =>
    if type = Operation.callService.tag then do
      let values ← Arg.listOfFields fields
      return .call (Json.fieldOrNull fields "service_id") (Json.fieldOrNull fields "service_action")
        values
    else .ok (.monitor fields)
  | v => .error (.badArguments v)

/-- The arguments among the fields of a block. -/
def Args.ofFields (type : String) : List (String × Json) → Except GraphError Args
  | [] => .ok (.list [])
  | (name, v) :: rest => if name = "args" then Args.ofJson type v else Args.ofFields type rest

/-- The values among the fields of a service call. -/
def Arg.listOfFields : List (String × Json) → Except GraphError (List Arg)
  | [] => .ok []
  | (name, v) :: rest =>
    if name = "service_call_values" then Arg.listOfJson v else Arg.listOfFields rest

/-- The contents among the fields of a block or a body. -/
def Content.listOfFields : List (String × Json) → Except GraphError (List Content)
  | [] => .ok []
  | (name, v) :: rest =>
    if name = "contents" then Content.listOfJson v else Content.listOfFields rest

/-- The blocks among the fields of an argument. -/
def Block.listOfFields : List (String × Json) → Except GraphError (List Block)
  | [] => .ok []
  | (name, v) :: rest => if name = "value" then Block.listOfJson v else Block.listOfFields rest

def Arg.listOfJson : Json → Except GraphError (List Arg)
  | .arr items => Arg.listOfItems items
  | v => noElements .notAnArgument v

def Content.listOfJson : Json → Except GraphError (List Content)
  | .arr items => Content.listOfItems items
  | v => noElements .notContent v

def Block.listOfJson : Json → Except GraphError (List Block)
  | .arr items => Block.listOfItems items
  | v => noElements .notABlock v

def Arg.listOfItems : List Json → Except GraphError (List Arg)
  | [] => .ok []
  | item :: rest => do return (← Arg.ofJson item) :: (← Arg.listOfItems rest)

def Content.listOfItems : List Json → Except GraphError (List Content)
  | [] => .ok []
  | item :: rest => do return (← Content.ofJson item) :: (← Content.listOfItems rest)

def Block.listOfItems : List Json → Except GraphError (List Block)
  | [] => .ok []
  | item :: rest => do return (← Block.ofJson item) :: (← Block.listOfItems rest)

end

def Graph.ofJson : Json → Except GraphError Graph
  | .arr items => Block.listOfItems items
  | _ => .error .notAGraph

end BlockFlow
