import BlockFlow.Number.Double

/-! JSON values. Integers and doubles are apart, and the fields of an object keep their order. -/

namespace BlockFlow

inductive Json
  | null
  | bool (value : Bool)
  | int (value : Int)
  | float (value : Double)
  | str (text : String)
  | arr (items : List Json)
  | obj (fields : List (String × Json))

/-- A scalar as a key of a table. Numbers of one value are one key, however they are spelt. -/
inductive Key
  | null
  | int (value : Int)
  | float (value : Double)
  | str (text : String)
deriving DecidableEq

namespace Json

/-- Sets a field. A name that is already there keeps its place. -/
def setField (name : String) (value : Json) : List (String × Json) → List (String × Json)
  | [] => [(name, value)]
  | (k, v) :: rest => if k = name then (k, value) :: rest else (k, v) :: setField name value rest

/-- The value of a field, `null` where it is absent. -/
def fieldOrNull (fields : List (String × Json)) (name : String) : Json :=
  (fields.lookup name).getD .null

/-- Whether a value counts as present: nothing empty, zero, `false` or `null` does. -/
def truthy : Json → Bool
  | null => false
  | bool b => b
  | int n => n != 0
  | float x => !x.isZero
  | str s => s != ""
  | arr items => !items.isEmpty
  | obj fields => !fields.isEmpty

/-- The word for the kind of a value in messages. -/
def kindWord : Json → String
  | null => "NoneType"
  | bool _ => "bool"
  | int _ => "int"
  | float _ => "float"
  | str _ => "str"
  | arr _ => "list"
  | obj _ => "dict"

/-- The key that a value is; containers are none. -/
def key? : Json → Option Key
  | null => some .null
  | bool b => some (.int (if b then 1 else 0))
  | int n => some (.int n)
  | float x => some ((x.toInt?.map Key.int).getD (.float x))
  | str s => some (.str s)
  | arr _ | obj _ => none

mutual

/-- Whether two values are the same: scalars if they are one key, arrays item by item, and objects
whatever the order of their fields. -/
def same : Json → Json → Bool
  | arr items, arr others => sameItems items others
  | obj fields, obj others => fields.length == others.length && sameFields others fields
  | a, b =>
    match a.key?, b.key? with
    | some key, some other => key == other
    | _, _ => false

def sameItems : List Json → List Json → Bool
  | [], [] => true
  | item :: rest, other :: others => same item other && sameItems rest others
  | _, _ => false

/-- Whether each field is the same among others. -/
def sameFields (others : List (String × Json)) : List (String × Json) → Bool
  | [] => true
  | (name, value) :: rest =>
    (match others.lookup name with
      | some other => same value other
      | none => false) && sameFields others rest

end

end Json

end BlockFlow
