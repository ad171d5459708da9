import BlockFlow.Calendar
import BlockFlow.Json.Printer
import BlockFlow.Log.Entry
import BlockFlow.Text.Replace

/-! Log entries as text. -/

namespace BlockFlow.Log

/-- An entry with its time in seconds, and the text of an error that belongs to it. -/
structure Record where
  entry : Entry
  created : Int
  exception : Option String
deriving DecidableEq

/-- Terminal colours. -/
inductive Color
  | reset
  | red
  | green
  | yellow
  | blue
  | magenta
  | cyan
  | gray
deriving DecidableEq

namespace Color

def number : Color → Nat
  | reset => 0
  | red => 91
  | green => 92
  | yellow => 93
  | blue => 94
  | magenta => 95
  | cyan => 96
  | gray => 90

/-- The escape code that switches a colour on. -/
def code (c : Color) : List Char := '\x1b' :: '[' :: Nat.toDigits 10 c.number ++ ['m']

/-- A text in a colour. -/
def paint (c : Color) (text : List Char) : List Char := c.code ++ text ++ reset.code

def ofLevel (level : Level) : Color :=
  if level = Level.debug then gray
  else if level = Level.info then green
  else if level = Level.warning then yellow
  else if level = Level.error then red
  else if level = Level.critical then magenta
  else reset

end Color

/-- Which parts of an entry a line shows. -/
inductive Layout
  | simple
  | detailed
deriving DecidableEq

namespace Layout

def line (l : Layout) (r : Record) : String :=
  let tail := r.entry.level.name ++ " - " ++ r.entry.message
  match l with
  | simple => tail
  | detailed =>
    (DateTime.ofSeconds r.created).logText ++ " - " ++ r.entry.logger ++ " - " ++ tail

/-- The line, and below it the error. An error without a text adds nothing. -/
def text (l : Layout) (r : Record) : String :=
  match r.exception.filter (· ≠ "") with
  | none => l.line r
  | some e => l.line r ++ (if (l.line r).toList.getLast? = some '\n' then "" else "\n") ++ e

end Layout

/-- Whether a text has the form of a time, `9` standing for a digit. -/
def matchesShape : List Char → List Char → Bool
  | [], _ => true
  | _ :: _, [] => false
  | s :: shape, c :: rest =>
    (if s = '9' then c.isDigit else c == s) && matchesShape shape rest

def timeShape : List Char := "9999-99-99 99:99:99".toList

/-- Colours a time at the start of a text. -/
def paintTime (text : List Char) : List Char :=
  if matchesShape timeShape text then
    Color.cyan.paint (text.take timeShape.length) ++ text.drop timeShape.length
  else text

/-- Colours the first occurrence of the level's name, a time at the start, and the first occurrence
of the logger's name between its separators. -/
def colorize (e : Entry) (text : List Char) : List Char :=
  let level := e.level.name.toList
  let text := replaceFirst level ((Color.ofLevel e.level).paint level) text
  let text := paintTime text
  let logger := e.logger.toList
  replaceFirst (' ' :: logger ++ " - ".toList) (' ' :: Color.blue.paint logger ++ " - ".toList) text

/-- How records become text. -/
inductive Formatter
  | plain (layout : Layout)
  | colored (layout : Layout)
  | jsonLines
deriving DecidableEq

namespace Formatter

/-- The formatter of a format's name; an unknown name means the detailed one. -/
def named (format : String) (colors : Bool) : Formatter :=
  if format = "json" then jsonLines
  else
    let layout := if format = "simple" then Layout.simple else Layout.detailed
    if colors then colored layout else plain layout

def text : Formatter → Record → String
  | plain layout, r => layout.text r
  | colored layout, r => String.ofList (colorize r.entry (layout.text r).toList)
  | jsonLines, r =>
    let error : List (String × Json) := (r.exception.map fun e => ("exception", .str e)).toList
    (Json.obj ([("timestamp", .str (DateTime.ofSeconds r.created).logText),
      ("level", .str r.entry.level.name), ("logger", .str r.entry.logger),
      ("message", .str r.entry.message)] ++ error)).text .logLine

end Formatter

end BlockFlow.Log
