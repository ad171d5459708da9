import BlockFlow.Cli.Words

/-! The commands, their options, and how they are asked for. -/

namespace BlockFlow.Cli

inductive Command
  | compile
  | canonicalize
  | equals
deriving DecidableEq

namespace Command

def all : List Command := [compile, canonicalize, equals]

def name : Command → String
  | compile => "compile"
  | canonicalize => "canonicalize"
  | equals => "equals"

def ofName? (text : String) : Option Command := all.find? fun c => c.name == text

def options : Command → List OptionSpec
  | compile =>
    [helpOption, ⟨["--in"], .value none, true⟩, ⟨["--out"], .value none, false⟩,
      ⟨["--no-link"], .flag, false⟩,
      ⟨["--id-strategy"], .value (some ["sequential", "uuid"]), false⟩,
      ⟨["--validate"], .flag, false⟩, ⟨["--report"], .flag, false⟩]
  | canonicalize =>
    [helpOption, ⟨["--in"], .value none, true⟩, ⟨["--out"], .value none, false⟩,
      ⟨["--list"], .flag, false⟩, ⟨["--strict"], .flag, false⟩, ⟨["--report"], .flag, false⟩]
  | equals =>
    [helpOption, ⟨["--left"], .value none, true⟩, ⟨["--right"], .value none, true⟩,
      ⟨["--list"], .flag, false⟩]

end Command

/-- A wish for a compiled graph. Paths may be missing, as an option can be given without a value. -/
structure CompileRequest where
  input : Option String
  output : Option String
  link : Bool
  idStrategy : Option String
  validate : Bool
  report : Bool
deriving DecidableEq

structure CanonicalizeRequest where
  input : Option String
  output : Option String
  list : Bool
  strict : Bool
  report : Bool
deriving DecidableEq

structure EqualsRequest where
  left : Option String
  right : Option String
  list : Bool
deriving DecidableEq

/-- What the user wants to be done. -/
inductive Request
  | compile (r : CompileRequest)
  | canonicalize (r : CanonicalizeRequest)
  | equals (r : EqualsRequest)
deriving DecidableEq

/-- The paths that a request reads, in order. -/
def Request.inputs : Request → List String
  | compile r => r.input.toList
  | canonicalize r => r.input.toList
  | equals r => r.left.toList ++ r.right.toList

/-- The request that a command's options make. -/
def Command.request (g : Given) : Command → Request
  | compile => .compile
    { input := g.value? "--in"
      output := g.value? "--out"
      link := !g.has "--no-link"
      idStrategy := g.value? "--id-strategy"
      validate := g.has "--validate"
      report := g.has "--report" }
  | canonicalize => .canonicalize
    { input := g.value? "--in"
      output := g.value? "--out"
      list := g.has "--list"
      strict := g.has "--strict"
      report := g.has "--report" }
  | equals => .equals
    { left := g.value? "--left"
      right := g.value? "--right"
      list := g.has "--list" }

/-- What a command line comes to. Help and misuse are about a command, or about the program. -/
inductive Invocation
  | help (about : Option Command)
  | noCommand
  | misuse (about : Option Command) (e : UsageError)
  | request (r : Request)
deriving DecidableEq

def Stop.invocation (about : Option Command) : Stop → Invocation
  | help => .help about
  | misuse e => .misuse about e

/-- Reads the words behind a command's name. `before` was left over in front of it. -/
def readCommand (before : List String) (c : Command) (rest : List String) : Invocation :=
  match readOptions c.options rest with
  | .error stop => stop.invocation (some c)
  | .ok given =>
    match before ++ given.leftover with
    | [] => .request (c.request given)
    | words => .misuse none (.unrecognized words)

def readNamed (before : List String) (name : String) (rest : List String) : Invocation :=
  match Command.ofName? name with
  | some c => readCommand before c rest
  | none => .misuse none (.invalidChoice "command" name (Command.all.map Command.name))

/-- Reads a command line up to the command's name, which is the first word that is no option. -/
def readFrom (before : List String) : List String → Invocation
  | [] =>
    match before with
    | [] => .noCommand
    | words => .misuse none (.unrecognized words)
  | "--" :: rest =>
    match rest with
    | [] => .misuse none (.unrecognized (before ++ ["--"]))
    | _ => readNamed before "--" rest
  | text :: rest =>
    match classify [helpOption] text with
    | .ok (.plain name) => readNamed before name rest
    | .ok (.option _ none) => .help none
    | .ok (.option spec (some value)) => .misuse none (.unexpectedValue spec.title value)
    | .ok word => readFrom (before ++ word.leftover) rest
    | .error e => .misuse none e

def Invocation.read (words : List String) : Invocation := readFrom [] words

end BlockFlow.Cli
