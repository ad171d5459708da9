import BlockFlow.Json.Basic

/-! Schemas: lists of keywords, in the order in which they are checked. A schema may refer to a
definition only for the items of an array, so that following references always descends into the
value. -/

namespace BlockFlow

/-- The types that a schema can ask for. -/
inductive JsonType
  | null
  | boolean
  | integer
  | number
  | string
  | array
  | object
deriving DecidableEq

namespace JsonType

def name : JsonType → String
  | null => "null"
  | boolean => "boolean"
  | integer => "integer"
  | number => "number"
  | string => "string"
  | array => "array"
  | object => "object"

def all : List JsonType := [null, boolean, integer, number, string, array, object]

def ofName? (name : String) : Option JsonType := all.find? fun t => t.name == name

/-- Whether a value is of a type. A double without a fraction is an integer too. -/
def holds : JsonType → Json → Bool
  | null, .null => true
  | boolean, .bool _ => true
  | integer, .int _ => true
  | integer, .float x => x.toInt?.isSome
  | number, .int _ => true
  | number, .float _ => true
  | string, .str _ => true
  | array, .arr _ => true
  | object, .obj _ => true
  | _, _ => false

end JsonType

inductive Keyword
  | type (expected : JsonType)
  | required (names : List String)
  | properties (parts : List (String × List Keyword))
  | items (each : List Keyword)
  | itemsOf (definition : String)
  | minLength (least : Nat)
  | const (expected : String)
  | not (schema : List Keyword)
  | oneOf (branches : List (List Keyword))

abbrev Schema := List Keyword

/-- Definitions by their names. -/
abbrev Definitions := List (String × Schema)

namespace Keyword

def name : Keyword → String
  | type _ => "type"
  | required _ => "required"
  | properties _ => "properties"
  | items _ | itemsOf _ => "items"
  | minLength _ => "minLength"
  | const _ => "const"
  | not _ => "not"
  | oneOf _ => "oneOf"

mutual

/-- What is written behind the name of a keyword. -/
def operand : Keyword → Json
  | type expected => .str expected.name
  | required names => .arr (names.map Json.str)
  | properties parts => .obj (partsToJson parts)
  | items each => .obj (schemaFields each)
  | itemsOf definition => .obj [("$ref", .str ("#/$defs/" ++ definition))]
  | minLength least => .int least
  | const expected => .str expected
  | not schema => .obj (schemaFields schema)
  | oneOf branches => .arr (branchesToJson branches)

def schemaFields : List Keyword → List (String × Json)
  | [] => []
  | k :: rest => (k.name, operand k) :: schemaFields rest

def partsToJson : List (String × List Keyword) → List (String × Json)
  | [] => []
  | (name, schema) :: rest => (name, .obj (schemaFields schema)) :: partsToJson rest

def branchesToJson : List (List Keyword) → List Json
  | [] => []
  | schema :: rest => .obj (schemaFields schema) :: branchesToJson rest

end

end Keyword

namespace Schema

def toJson (s : Schema) : Json := .obj (Keyword.schemaFields s)

def texts (v : List Json) : List String :=
  v.filterMap fun
    | .str text => some text
    | _ => none

mutual

/-- The schema that a value spells. What is no keyword is an annotation. -/
def ofJson : Json → Schema
  | .obj fields => ofFields fields
  | _ => []

def ofFields : List (String × Json) → Schema
  | [] => []
  | ("type", .str name) :: rest =>
    ((JsonType.ofName? name).map Keyword.type).toList ++ ofFields rest
  | ("required", .arr names) :: rest => .required (texts names) :: ofFields rest
  | ("properties", .obj parts) :: rest => .properties (partsOfFields parts) :: ofFields rest
  | ("items", .obj each) :: rest => .items (ofFields each) :: ofFields rest
  | _ :: rest => ofFields rest

def partsOfFields : List (String × Json) → List (String × Schema)
  | [] => []
  | (name, v) :: rest => (name, ofJson v) :: partsOfFields rest

end

end Schema

end BlockFlow
