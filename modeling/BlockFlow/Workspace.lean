import BlockFlow.Canonical
import BlockFlow.Graph.Document
import BlockFlow.Graph.Form
import BlockFlow.Linking
import BlockFlow.Log.Entry
import BlockFlow.Lowering
import BlockFlow.Settings

/-! A workspace: the state that the stages of the compiler share. What a stage did to it before a
failure stays done. -/

namespace BlockFlow

structure Workspace where
  settings : Settings
  report : Report
  log : List Log.Entry
  ids : IdSupply

/-- Why a piece of work failed. -/
inductive Failure
  | lower (e : LowerError)
  | link (e : LinkError)
  | canonical (e : CanonicalError)
  | parse (e : GraphError)
  | form (e : FormError)
  | verify (e : BadKey)
  | strategy (e : UnknownStrategy)

def Failure.message : Failure → String
  | lower e => e.message
  | link e => e.message
  | canonical e => e.message
  | parse e => e.message
  | form e => e.message
  | verify e => e.message
  | strategy e => e.message

/-- Whether a failure is one that the compiler expects of its input. -/
def Failure.isExpected : Failure → Bool
  | lower _ => true
  | link (.forkInArgument _) | link (.broken _) => true
  | canonical (.unknownOperation _) => true
  | _ => false

/-- A piece of work in a workspace. -/
abbrev Work := ExceptT Failure (StateM Workspace)

/-- The parts of the compiler that write to the log. -/
inductive Component
  | lowerer
  | linker
  | compiler
  | canonicalizer
  | commandLine
deriving DecidableEq

def Component.logger : Component → String
  | lowerer => "services.flow_compiler.compilers.block_lowerer"
  | linker => "services.flow_compiler.compilers.graph_linker"
  | compiler => "services.flow_compiler.compiler"
  | canonicalizer => "services.flow_compiler.canonical.canonicalizer"
  | commandLine => "services.flow_compiler.cli"

namespace Workspace

def start (settings : Settings) (ids : IdSupply) : Workspace := ⟨settings, .empty, [], ids⟩

def addLog (w : Workspace) (e : Log.Entry) : Workspace := { w with log := w.log ++ [e] }

/-- Notes a warning in the report and in the log. -/
def warn (component : Component) (w : Workspace) (warning : Warning) : Workspace :=
  { w with report := w.report.addWarning warning.diagnostic }.addLog
    ⟨Log.Level.warning, component.logger, warning.diagnostic.line⟩

def addErrors (w : Workspace) (diagnostics : List Diagnostic) : Workspace :=
  { w with report := diagnostics.foldl Report.addError w.report }

end Workspace

namespace Work

def log (level : Log.Level) (component : Component) (message : String) : Work Unit :=
  modify (·.addLog ⟨level, component.logger, message⟩)

/-- Fails with the error of a result. -/
def ofExcept {ε α : Type} (wrap : ε → Failure) : Except ε α → Work α
  | .ok a => pure a
  | .error e => throw (wrap e)

/-- Runs a computation whose trace are warnings. -/
def ofTraced {ε α : Type} (component : Component) (wrap : ε → Failure) (x : Traced Warning ε α) :
    Work α := do
  modify fun w => x.trace.foldl (Workspace.warn component) w
  ofExcept wrap x.outcome

def lowered {α : Type} (x : Lowering α) : Work α := ofTraced .lowerer .lower x

/-- Lowers a whole program, and says so. -/
def lower (least : Int) (program : Json) : Work Graph := do
  let tree ← lowered (lowerProgram least .top program)
  let warnings := (← get).report.warnings.length
  log Log.Level.debug .lowerer
    ("Lowered " ++ toString tree.length ++ " top-level operations with " ++ toString warnings ++
      " warnings")
  return tree

/-- Links a tree with the ids of the workspace. -/
def link (tree : Graph) : Work Graph := do
  let (result, ids) := (← get).ids.link tree
  modify ({ · with ids })
  match result with
  | .ok linked =>
    log Log.Level.debug .linker ("Linked " ++ toString linked.length ++ " root blocks")
    return linked
  | .error e =>
    modify (·.addErrors e.diagnostics)
    throw (.link e)

/-- Chooses where ids come from. -/
def chooseIds (name label : Option String) : Work Unit := do
  let strategy ← ofExcept .strategy ((← get).settings.idStrategy name label)
  modify fun w => { w with ids := w.ids.switch strategy }

/-- How many operations a program has. -/
def programLength : Json → Nat
  | .arr operations => operations.length
  | _ => 0

/-- Where the ids of a compilation come from: from the workspace as it is, or from the configured
strategy, which is chosen only when linking starts. -/
inductive IdChoice
  | current
  | configured
deriving DecidableEq

/-- Compiles a program: lowers it and, if asked, links the tree. -/
def compile (choice : IdChoice) (linking : Bool) (program : Json) : Work Graph := do
  let tree ← lowered (lowerProgram (← get).settings.minForkPaths .top program)
  let graph ←
    if linking then do
      if choice = .configured then chooseIds none none
      link tree
    else pure tree
  let warnings := (← get).report.warnings.length
  log Log.Level.info .compiler
    ("Compiled " ++ toString (programLength program) ++ " operations into " ++
      toString graph.length ++ " root blocks (" ++ toString warnings ++ " warnings)")
  return graph

def canonicalized {α : Type} (x : Canonicalizing α) : Work α :=
  ofTraced .canonicalizer .canonical x

/-- Strictness as asked for, or as configured. -/
def strictness (asked : Option Bool) : Work Bool :=
  return asked.getD (← get).settings.strictCanonicalization

def canonicalize (asked : Option Bool) (g : Graph) : Work Graph := do
  canonicalized (g.canonical (← strictness asked))

def canonicalizeList (asked : Option Bool) (graphs : List Graph) : Work (List Graph) := do
  canonicalized (canonicalList (← strictness asked) graphs)

def canonicalizeDocument (asked : Option Bool) : GraphDocument → Work GraphDocument
  | .single g => return .single (← canonicalize asked g)
  | .collection graphs => return .collection (← canonicalizeList asked graphs)

def parse (v : Json) : Work Graph := ofExcept .parse (Graph.ofJson v)

/-- Canonicalizes the graph that a value gives. -/
def canonicalizeForm (asked : Option Bool) (v : Json) : Work Graph := do
  canonicalize asked (← ofExcept .form (Graph.ofForm v))

/-- Reads and canonicalizes graphs one after the other, and puts them in order. -/
def canonicalizeForms (asked : Option Bool) (forms : List Json) : Work (List Graph) :=
  return sortByText Graph.toJson (← forms.mapM (canonicalizeForm asked))

def verify (g : Graph) : Work (List Problem) := ofExcept .verify g.verify

end Work

end BlockFlow
