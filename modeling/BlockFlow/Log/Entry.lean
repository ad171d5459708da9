/-! Log entries and their levels. -/

namespace BlockFlow.Log

/-- A level is a number; the larger, the graver. -/
abbrev Level := Int

namespace Level

def notSet : Level := 0
def debug : Level := 10
def info : Level := 20
def warning : Level := 30
def error : Level := 40
def critical : Level := 50

def name (level : Level) : String :=
  if level = notSet then "NOTSET"
  else if level = debug then "DEBUG"
  else if level = info then "INFO"
  else if level = warning then "WARNING"
  else if level = error then "ERROR"
  else if level = critical then "CRITICAL"
  else "Level " ++ toString level

/-- The capital of a letter. Two letters beyond ASCII have an ASCII capital. -/
def capital (c : Char) : Char :=
  if c = 'ı' then 'I' else if c = 'ſ' then 'S' else c.toUpper

/-- The level of a name in any case; an unknown name means `info`. -/
def ofName (text : String) : Level :=
  let name := String.ofList (text.toList.map capital)
  if name = "CRITICAL" ∨ name = "FATAL" then critical
  else if name = "ERROR" then error
  else if name = "WARNING" ∨ name = "WARN" then warning
  else if name = "DEBUG" then debug
  else if name = "NOTSET" then notSet
  else info

end Level

/-- Something said by a part of the program. -/
structure Entry where
  level : Level
  logger : String
  message : String
deriving DecidableEq

/-- An entry as one line without a time. -/
def Entry.line (e : Entry) : String := e.level.name ++ " " ++ e.logger ++ ": " ++ e.message

end BlockFlow.Log
