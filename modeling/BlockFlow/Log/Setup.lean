import BlockFlow.Log.Format
import BlockFlow.Settings

/-! Which log entries are shown, and where. -/

namespace BlockFlow.Log

inductive Target
  | console
  | file
deriving DecidableEq

structure Handler where
  target : Target
  level : Level
  formatter : Formatter
deriving DecidableEq

/-- The configuration of the log. -/
structure Setup where
  level : Level
  handlers : List Handler
deriving DecidableEq

/-- The name of the logger above all others. -/
def rootName : String := "root"

/-- An entry as its logger hands it on: one without a name is the logger above all others. -/
def Entry.named (e : Entry) : Entry :=
  if e.logger = "" then { e with logger := rootName } else e

/-- What a configuration is made of. -/
structure Options where
  level : String := "INFO"
  format : String := "detailed"
  colors : Bool := true
deriving DecidableEq

namespace Setup

/-- The console is coloured only if it is a terminal; a file gets plain lines. -/
def make (o : Options) (terminal file : Bool) : Setup :=
  let level := Level.ofName o.level
  { level
    handlers := ⟨.console, level, .named o.format (o.colors && terminal)⟩ ::
      if file then [⟨.file, level, .plain .detailed⟩] else [] }

/-- Whether an entry is shown: its level is positive and at least the configured one. -/
def shows (s : Setup) (e : Entry) : Bool := decide (0 < e.level ∧ s.level ≤ e.level)

/-- The text that a target receives for a record. -/
def emit (s : Setup) (target : Target) (r : Record) : String :=
  if s.shows r.entry then
    String.join ((s.handlers.filter fun h => h.target == target && decide (h.level ≤ r.entry.level)).map
      fun h => h.formatter.text r ++ "\n")
  else ""

/-- The text that a target receives for entries of one time. -/
def emitAll (s : Setup) (target : Target) (now : Int) (entries : List Entry) : String :=
  String.join (entries.map fun e => s.emit target ⟨e.named, now, none⟩)

/-- The options of the settings: `debug` asks for the debug level. -/
def optionsOf (settings : Settings) : Options :=
  { level := if settings.debug then "DEBUG" else settings.logLevel, format := settings.logFormat }

/-- What is logged first once the log is configured by the settings. -/
def announcement (settings : Settings) : Entry :=
  ⟨Level.debug, "core.logging_config",
    "Logging configured with level: " ++ (optionsOf settings).level ++ ", format: " ++
      settings.logFormat⟩

end Setup

end BlockFlow.Log
