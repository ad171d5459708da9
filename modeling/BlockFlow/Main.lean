import BlockFlow.Cli.Run
import BlockFlow.Text.Newlines
import BlockFlow.Uuid
import Std.Time.DateTime.Timestamp

/-! The program: it looks up what a request needs, has it answered, and writes what comes of it. -/

namespace BlockFlow.Program

def faultOf : IO.Error → FileFault
  | .noFileOrDirectory .. => .notFound
  | .permissionDenied .. => .denied
  | .inappropriateType _ code _ => if code = 20 then .notADirectory else .isADirectory
  | .invalidArgument _ 36 _ => .nameTooLong
  | .otherError code reason => .other code.toNat reason
  | e => .other 5 (toString e)

def readText (path : String) : IO (Except FileError String) := do
  if path.toList.contains '\x00' then return .error ⟨.nullByte, path⟩
  try
    let text ← IO.FS.readFile path
    return .ok (String.ofList (unifyNewlines text.toList))
  catch e => return .error ⟨faultOf e, path⟩

/-- The texts at some paths; every path can be written but those refused. -/
def access (texts : List (String × Except FileError String)) (refused : List FileError) : Files where
  read path := (texts.lookup path).getD (.error ⟨.notFound, path⟩)
  refusal path := refused.find? (·.path == path)

def environment : IO (List (String × String)) := do
  let names := Settings.fieldNames
  let capitals := names.map fun name => String.ofList (name.toList.map Char.toUpper)
  (names ++ capitals).filterMapM fun name => do return (← IO.getEnv name).map (name, ·)

def settings : IO (Except (List SettingsIssue) Settings) := do
  return Settings.read (← environment) (← readText ".env").toOption

def seed : IO Nat := do
  return (← IO.getRandomBytes 16).toList.foldl (fun n byte => n * 256 + byte.toNat) 0

/-- Writes the texts; the errors of those that cannot be written. -/
def write (texts : List (String × String)) : IO (List FileError) :=
  texts.filterMapM fun (path, text) => do
    try
      IO.FS.writeFile path text
      return none
    catch e => return some ⟨faultOf e, path⟩

def run (settings : Settings) (words : List String) : IO UInt32 := do
  let invocation := Cli.Invocation.read words
  let paths :=
    match invocation with
    | .request r => r.inputs
    | _ => []
  let texts ← paths.mapM fun path => do return (path, ← readText path)
  let terminal ← (← IO.getStderr).isTty
  let microseconds := (← Std.Time.Timestamp.now).toNanosecondsSinceUnixEpoch.toInt.fdiv 1000
  let random := uuidFrom (← seed)
  let answer (refused : List FileError) :=
    (Cli.Surroundings.mk (access texts refused) settings terminal microseconds random).answer
      invocation
  let refused ← write (answer []).written
  let outcome := answer refused
  IO.print outcome.stdout
  IO.eprint outcome.stderr
  return outcome.exit.toUInt32

end BlockFlow.Program

def main (words : List String) : IO UInt32 := do
  match ← BlockFlow.Program.settings with
  | .ok settings => BlockFlow.Program.run settings words
  | .error issues =>
    for issue in issues do
      IO.eprintln (issue.place ++ ": " ++ issue.message)
    return 1
