import BlockFlow.Cli.Command
import BlockFlow.Files
import BlockFlow.Output
import BlockFlow.Schema.Loading
import BlockFlow.Workspace

/-! The work of the commands. -/

namespace BlockFlow.Cli

/-- Why a command failed. -/
inductive JobError
  | noPath
  | unreadable (e : FileError)
  | invalidJson (path : String) (e : Json.ReadError)
  | notAList (path : String)
  | invalidGraph (path : String) (e : GraphError)
  | unwritable (e : FileError)
  | work (e : Failure)

namespace JobError

/-- What is logged of a failure that the user can have caused. -/
def expected? : JobError → Option String
  | noPath => none
  | unreadable ⟨.notFound, path⟩ => some ("File not found: " ++ path)
  | unreadable _ => none
  | invalidJson path (.malformed fault place) =>
    some ("Invalid JSON in " ++ path ++ ": " ++ (Json.ReadError.malformed fault place).message)
  | invalidJson _ (.tooManyDigits _) => none
  | notAList path =>
    some ("Invalid compiled graph in " ++ path ++ ": Expected a JSON array of graphs")
  | invalidGraph _ (.notIterable _) => none
  | invalidGraph path e => some ("Invalid compiled graph in " ++ path ++ ": " ++ e.message)
  | unwritable ⟨.nullByte, _⟩ => none
  | unwritable e => some ("Failed to save output to " ++ e.path ++ ": " ++ e.message)
  | work e => if e.isExpected then some e.message else none

def message : JobError → String
  | noPath => "expected str, bytes or os.PathLike object, not list"
  | unreadable e | unwritable e => e.message
  | invalidJson _ e => e.message
  | notAList _ => "Expected a JSON array of graphs"
  | invalidGraph _ e => e.message
  | work e => e.message

/-- What is logged of a failure. -/
def line (e : JobError) : String := e.expected?.getD ("Unexpected error: " ++ e.message)

end JobError

/-- What a command has done so far: the state of its workspace, and the texts it wrote. -/
structure Desk where
  workspace : Workspace
  stdout : String
  written : List (String × String)

/-- The work of a command. -/
abbrev Job := ExceptT JobError (StateM Desk)

namespace Job

def ofWork {α : Type} (x : Work α) : Job α := do
  let desk ← get
  let (result, workspace) := x.run.run desk.workspace
  set { desk with workspace }
  match result with
  | .ok a => return a
  | .error e => throw (.work e)

def ofExcept {ε α : Type} (wrap : ε → JobError) : Except ε α → Job α
  | .ok a => pure a
  | .error e => throw (wrap e)

def log (level : Log.Level) (message : String) : Job Unit :=
  ofWork (Work.log level .commandLine message)

variable (files : Files) (now : DateTime)

def loadJson (path : String) : Job Json := do
  let text ← ofExcept .unreadable (files.read path)
  ofExcept (.invalidJson path) (Json.read text)

/-- The path of an input. -/
def inputPath : Option String → Job String
  | some path => pure path
  | none => throw .noPath

/-- The graph at a path, or the graphs of a list. -/
def loadGraphs (list : Bool) (input : Option String) : Job GraphDocument := do
  let path ← inputPath input
  let doc ← loadJson files path
  if list then
    match doc with
    | .arr graphs =>
      return .collection (← ofExcept (.invalidGraph path) (graphs.mapM Graph.ofJson))
    | _ => throw (.notAList path)
  else return .single (← ofExcept (.invalidGraph path) (Graph.ofJson doc))

/-- Writes a text and a line feed: to the path, or to standard output if there is none. -/
def save (output : Option String) (text : String) : Job Unit := do
  match output with
  | none | some "" => modify fun desk => { desk with stdout := desk.stdout ++ text ++ "\n" }
  | some path =>
    match files.refusal path with
    | some e => throw (.unwritable e)
    | none =>
      modify fun desk => { desk with written := desk.written ++ [(path, text ++ "\n")] }
      log Log.Level.info ("Output saved to: " ++ path)

def report : Job Report := return (← get).workspace.report

/-- Logs the warnings of the report. -/
def logWarnings : Job Unit := do
  let warnings := (← report).warnings
  unless warnings.isEmpty do
    log Log.Level.warning "Warnings:"
    warnings.forM fun d => log Log.Level.warning ("  " ++ d.path ++ ": " ++ d.message)

/-- A result as the user asked for it: with the report, or alone. -/
def resultText (wrapped : Bool) (withReport alone : Json) : String :=
  if wrapped then withReport.text .report else alone.text .document

def compile (r : CompileRequest) : Job Nat := do
  log Log.Level.info "Compiling source AST..."
  let program ← loadJson files (← inputPath r.input)
  ofWork (Work.chooseIds r.idStrategy none)
  let graph ← ofWork (Work.compile .current r.link program)
  let issues := if r.validate then FlowGraphSchema.document.issues graph.toJson else []
  let findings := issues.map SchemaIssue.finding
  findings.forM fun f => log Log.Level.error ("  " ++ f.path ++ ": " ++ f.message)
  save files r.output
    (resultText r.report (Output.compiled now graph (← report) findings) graph.toJson)
  logWarnings
  if findings.isEmpty then
    log Log.Level.info "Compilation completed successfully!"
    return 0
  else
    log Log.Level.error "Compiled graph failed schema validation"
    return 1

def canonicalize (r : CanonicalizeRequest) : Job Nat := do
  log Log.Level.info "Canonicalizing compiled graph..."
  let doc ← loadGraphs files r.list r.input
  let canonical ← ofWork (Work.canonicalizeDocument (if r.strict then some true else none) doc)
  save files r.output
    (resultText r.report (Output.canonical now canonical (← report)) canonical.toJson)
  logWarnings
  return 0

def equals (r : EqualsRequest) : Job Nat := do
  let left ← loadGraphs files r.list r.left
  let right ← loadGraphs files r.list r.right
  let left ← ofWork (Work.canonicalizeDocument none left)
  let right ← ofWork (Work.canonicalizeDocument none right)
  logWarnings
  if left.toJson.stableText = right.toJson.stableText then
    log Log.Level.info "Graphs are structurally equal"
    return 0
  else
    log Log.Level.info "Graphs differ"
    return 1

/-- Does what is asked for, and gives the exit status. -/
def ofRequest : Request → Job Nat
  | .compile r => compile files now r
  | .canonicalize r => canonicalize files now r
  | .equals r => equals files r

/-- A job that logs its failure and then has the exit status 1. -/
def logged (job : Job Nat) : Job Nat :=
  tryCatch job fun e => do
    log Log.Level.error e.line
    return 1

end Job

end BlockFlow.Cli
