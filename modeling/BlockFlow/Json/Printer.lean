import BlockFlow.Json.Basic
import BlockFlow.Number.Format

/-! JSON texts. -/

namespace BlockFlow.Json

/-- How the parts of a container are set apart. -/
inductive Spacing
  | inline (separator colon : String)
  | indented (width : Nat)
deriving DecidableEq

/-- A way to write JSON. With `ascii` every other character is escaped. -/
structure Style where
  spacing : Spacing
  ascii : Bool
  sortKeys : Bool
deriving DecidableEq

namespace Style

/-- One text for each value up to the order of keys: keys ascend, and nothing is spaced. -/
def stable : Style := ⟨.inline "," ":", false, true⟩

/-- A value on one line, in ASCII. -/
def line : Style := ⟨.inline ", " ": ", true, false⟩

/-- A value on one line of a log. -/
def logLine : Style := ⟨.inline ", " ": ", false, false⟩

/-- A document in ASCII, two columns to a level. -/
def document : Style := ⟨.indented 2, true, false⟩

/-- A report, two columns to a level. -/
def report : Style := ⟨.indented 2, false, false⟩

end Style

/-- A UTF-16 unit as an escape. -/
def unitEscape (unit : Nat) : List Char := '\\' :: 'u' :: (hexadecimal 4 unit).toList

/-- A character inside a quoted text. -/
def escape (ascii : Bool) (c : Char) : List Char :=
  if c = '"' then ['\\', '"']
  else if c = '\\' then ['\\', '\\']
  else if c = '\n' then ['\\', 'n']
  else if c = '\r' then ['\\', 'r']
  else if c = '\t' then ['\\', 't']
  else if c = '\x08' then ['\\', 'b']
  else if c = '\x0c' then ['\\', 'f']
  else if c.toNat < 32 then unitEscape c.toNat
  else if !ascii || c.toNat < 127 then [c]
  else if c.toNat < 0x10000 then unitEscape c.toNat
  else
    let rest := c.toNat - 0x10000
    unitEscape (0xd800 + rest / 0x400) ++ unitEscape (0xdc00 + rest % 0x400)

def quoted (ascii : Bool) (text : String) : String :=
  "\"" ++ String.ofList (text.toList.flatMap (escape ascii)) ++ "\""

/-- A line break and the indentation of a level. -/
def newLine (width depth : Nat) : String :=
  "\n" ++ String.ofList (List.replicate (width * depth) ' ')

/-- Written parts between two brackets, `depth` levels down. -/
def Spacing.enclose (depth : Nat) (opening closing : String) :
    Spacing → List String → String
  | _, [] => opening ++ closing
  | .inline separator _, parts => opening ++ separator.intercalate parts ++ closing
  | .indented width, parts =>
    opening ++ newLine width (depth + 1) ++ ("," ++ newLine width (depth + 1)).intercalate parts ++
      newLine width depth ++ closing

def Spacing.colon : Spacing → String
  | .inline _ colon => colon
  | .indented _ => ": "

/-- Fields in the order of their names, those of one name as they stood. -/
def sortFields {α : Type} (fields : List (String × α)) : List (String × α) :=
  fields.mergeSort fun a b => decide (a.1 ≤ b.1)

/-- Written fields between braces. -/
def Style.objectText (s : Style) (depth : Nat) (fields : List (String × String)) : String :=
  let fields := if s.sortKeys then sortFields fields else fields
  s.spacing.enclose depth "\x7b" "\x7d"
    (fields.map fun (name, text) => quoted s.ascii name ++ s.spacing.colon ++ text)

mutual

def textAt (s : Style) (depth : Nat) : Json → String
  | null => "null"
  | bool b => if b then "true" else "false"
  | int n => toString n
  | float x => x.text .json
  | str t => quoted s.ascii t
  | arr items => s.spacing.enclose depth "[" "]" (itemTexts s (depth + 1) items)
  | obj fields => s.objectText depth (fieldTexts s (depth + 1) fields)

def itemTexts (s : Style) (depth : Nat) : List Json → List String
  | [] => []
  | item :: rest => textAt s depth item :: itemTexts s depth rest

def fieldTexts (s : Style) (depth : Nat) : List (String × Json) → List (String × String)
  | [] => []
  | (name, value) :: rest => (name, textAt s depth value) :: fieldTexts s depth rest

end

/-- The text of a value. -/
def text (s : Style) (v : Json) : String := textAt s 0 v

end BlockFlow.Json
