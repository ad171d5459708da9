import BlockFlow.Json.Basic
import BlockFlow.Number.Format
import BlockFlow.Text.Printable

/-! Values as they are shown in messages. -/

namespace BlockFlow

/-- A character inside a displayed text between the quotes `quote`. -/
def displayChar (quote c : Char) : List Char :=
  if c = quote ∨ c = '\\' then ['\\', c]
  else if c = '\n' then ['\\', 'n']
  else if c = '\r' then ['\\', 'r']
  else if c = '\t' then ['\\', 't']
  else if printable c then [c]
  else if c.toNat < 0x100 then '\\' :: 'x' :: (hexadecimal 2 c.toNat).toList
  else if c.toNat < 0x10000 then '\\' :: 'u' :: (hexadecimal 4 c.toNat).toList
  else '\\' :: 'U' :: (hexadecimal 8 c.toNat).toList

/-- A text between single quotes, or double ones where that saves escapes. -/
def displayText (text : String) : String :=
  let chars := text.toList
  let quote := if chars.contains '\'' && !chars.contains '"' then '"' else '\''
  String.ofList (quote :: chars.flatMap (displayChar quote) ++ [quote])

namespace Json

mutual

/-- A value as shown in a message. -/
def display : Json → String
  | null => "None"
  | bool b => if b then "True" else "False"
  | int n => toString n
  | float x => x.text .display
  | str t => displayText t
  | arr items => "[" ++ ", ".intercalate (displayItems items) ++ "]"
  | obj fields => "\x7b" ++ ", ".intercalate (displayFields fields) ++ "\x7d"

def displayItems : List Json → List String
  | [] => []
  | item :: rest => display item :: displayItems rest

def displayFields : List (String × Json) → List String
  | [] => []
  | (name, value) :: rest => (displayText name ++ ": " ++ display value) :: displayFields rest

end

/-- A value as a text: a text stands for itself, anything else is displayed. -/
def plainText : Json → String
  | str t => t
  | v => display v

end Json

end BlockFlow
