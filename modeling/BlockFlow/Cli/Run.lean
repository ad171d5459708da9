import BlockFlow.Cli.Help
import BlockFlow.Cli.Job
import BlockFlow.Log.Setup

/-! The program as a whole, from its command line to what it leaves behind. -/

namespace BlockFlow.Cli

/-- What the program finds when it starts. -/
structure Surroundings where
  files : Files
  settings : Settings
  terminal : Bool
  microseconds : Int
  random : Nat → String

/-- What the program leaves behind. -/
structure Outcome where
  exit : Nat
  stdout : String
  stderr : String
  written : List (String × String)
deriving DecidableEq

namespace Surroundings

/-- The desk at which a command starts. -/
def desk (s : Surroundings) : Desk :=
  ⟨.start s.settings (.start s.random (.sequential s.settings.blockIdLabel)), "", []⟩

/-- The time of a report. -/
def now (s : Surroundings) : DateTime := .ofMicroseconds s.microseconds

/-- The log as it is shown on the console, its time in seconds. -/
def console (s : Surroundings) (entries : List Log.Entry) : String :=
  (Log.Setup.make (Log.Setup.optionsOf s.settings) s.terminal false).emitAll .console
    (s.microseconds.fdiv 1000000) (Log.Setup.announcement s.settings :: entries)

def perform (s : Surroundings) (r : Request) : Outcome :=
  let (result, desk) := (Job.ofRequest s.files s.now r).logged.run.run s.desk
  { exit :=
      match result with
      | .ok status => status
      | .error _ => 1
    stdout := desk.stdout
    stderr := s.console desk.workspace.log
    written := desk.written }

def answer (s : Surroundings) : Invocation → Outcome
  | .help about => ⟨0, helpText about, "", []⟩
  | .noCommand => ⟨1, helpText none, "", []⟩
  | .misuse about e => ⟨2, "", misuseText about e, []⟩
  | .request r => s.perform r

def run (s : Surroundings) (words : List String) : Outcome := s.answer (.read words)

end Surroundings

end BlockFlow.Cli
