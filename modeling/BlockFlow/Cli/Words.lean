import BlockFlow.Json.Display
import BlockFlow.Text.DecimalDigit

/-! The words of a command line: options, their values, and the rest. -/

namespace BlockFlow.Cli

/-- What an option does. A value may have to be one of some choices. -/
inductive OptionKind
  | help
  | flag
  | value (choices : Option (List String))
deriving DecidableEq

structure OptionSpec where
  names : List String
  kind : OptionKind
  required : Bool := false
deriving DecidableEq

/-- An option as messages name it. -/
def OptionSpec.title (o : OptionSpec) : String := "/".intercalate o.names

def helpOption : OptionSpec := ⟨["-h", "--help"], .help, false⟩

/-- How a command line is wrong. -/
inductive UsageError
  | ambiguous (word : String) (candidates : List String)
  | expectedValue (argument : String)
  | unexpectedValue (argument value : String)
  | invalidChoice (argument value : String) (choices : List String)
  | missing (arguments : List String)
  | unrecognized (words : List String)
deriving DecidableEq

def UsageError.message : UsageError → String
  | ambiguous word candidates =>
    "ambiguous option: " ++ word ++ " could match " ++ ", ".intercalate candidates
  | expectedValue argument => "argument " ++ argument ++ ": expected one argument"
  | unexpectedValue argument value =>
    "argument " ++ argument ++ ": ignored explicit argument " ++ displayText value
  | invalidChoice argument value choices =>
    "argument " ++ argument ++ ": invalid choice: " ++ displayText value ++ " (choose from " ++
      ", ".intercalate (choices.map displayText) ++ ")"
  | missing arguments =>
    "the following arguments are required: " ++ ", ".intercalate arguments
  | unrecognized words => "unrecognized arguments: " ++ " ".intercalate words

/-- What a word is: an option, perhaps with a value attached, one that looks like an option and is
none, the mark behind which no options stand, or anything else. -/
inductive Word
  | option (spec : OptionSpec) (attached : Option String)
  | unknown (text : String)
  | endOfOptions
  | plain (text : String)
deriving DecidableEq

/-- A word as it was written. -/
def Word.leftover : Word → List String
  | option _ _ => []
  | unknown text | plain text => [text]
  | endOfOptions => ["--"]

/-- Whether a word is a negative number; a line feed at its end does not count. -/
def isNegativeNumber (text : String) : Bool :=
  let chars := text.toList
  match if chars.getLast? = some '\n' then chars.dropLast else chars with
  | '-' :: digits =>
    match digits.dropWhile isDecimalDigit with
    | [] => !digits.isEmpty
    | '.' :: decimals => !decimals.isEmpty && decimals.all isDecimalDigit
    | _ => false
  | _ => false

/-- A word at its first `=`. -/
def splitValue (text : String) : String × Option String :=
  let chars := text.toList
  let name := String.ofList (chars.takeWhile (· != '='))
  match chars.dropWhile (· != '=') with
  | [] => (name, none)
  | _ :: value => (name, some (String.ofList value))

/-- What follows the letter of an option without a value in the same word: more of the same letter,
or else a value. -/
def helpTail : List Char → Option String
  | [] => none
  | 'h' :: tail => helpTail tail
  | value => some (String.ofList value)

/-- The value behind `-h`, which may be attached by an `=`. -/
def helpValue : List Char → Option String
  | ['='] => some ""
  | '=' :: tail => helpTail tail
  | tail => helpTail tail

/-- The long options that start like a name. -/
def candidates (specs : List OptionSpec) (start : String) : List (String × OptionSpec) :=
  specs.flatMap fun spec => (spec.names.filter fun name =>
    start.toList.isPrefixOf name.toList).map fun name => (name, spec)

/-- What a word is that starts with a dash and is no option's name. -/
def unnamed (text : String) : Word :=
  if isNegativeNumber text || text.toList.contains ' ' then .plain text else .unknown text

/-- What a word is that stands before the end of the options. -/
def classify (specs : List OptionSpec) (text : String) : Except UsageError Word :=
  let named (name : String) := specs.find? fun spec => spec.names.contains name
  match text.toList with
  | '-' :: second :: tail =>
    match named text with
    | some spec => .ok (.option spec none)
    | none =>
      let (name, value) := splitValue text
      if second = '-' then
        match named name with
        | some spec => .ok (.option spec value)
        | none =>
          match candidates specs name with
          | [] => .ok (unnamed text)
          | [(_, spec)] => .ok (.option spec value)
          | several => .error (.ambiguous text (several.map Prod.fst))
      else if second = 'h' then .ok (.option helpOption (helpValue tail))
      else .ok (unnamed text)
  | _ => .ok (.plain text)

/-- All words, those behind `--` being plain. -/
def classifyAll (specs : List OptionSpec) : List String → Except UsageError (List Word)
  | [] => .ok []
  | "--" :: rest => .ok (.endOfOptions :: rest.map .plain)
  | text :: rest => do return (← classify specs text) :: (← classifyAll specs rest)

/-- Why reading a command line ends early. -/
inductive Stop
  | help
  | misuse (e : UsageError)
deriving DecidableEq

/-- What options were given, in order, and which words were left over. -/
structure Given where
  options : List (OptionSpec × Option String)
  leftover : List String
deriving DecidableEq

namespace Given

def addOption (spec : OptionSpec) (value : Option String) (g : Given) : Given :=
  { g with options := (spec, value) :: g.options }

def addLeftover (words : List String) (g : Given) : Given :=
  { g with leftover := words ++ g.leftover }

def has (g : Given) (name : String) : Bool :=
  g.options.any fun (spec, _) => spec.names.contains name

/-- The value of an option; the last time that it was given counts. -/
def value? (g : Given) (name : String) : Option String :=
  (g.options.reverse.find? fun (spec, _) => spec.names.contains name).bind Prod.snd

/-- The required options that were not given. -/
def missing (specs : List OptionSpec) (g : Given) : List String :=
  (specs.filter fun spec => spec.required && !spec.names.any g.has).map OptionSpec.title

end Given

/-- Accepts a value that is among the choices. -/
def checkChoice (spec : OptionSpec) (value : String) : Option (List String) → Except Stop Unit
  | none => .ok ()
  | some choices =>
    if value ∈ choices then .ok ()
    else .error (.misuse (.invalidChoice spec.title value choices))

/-- Takes the options out of the words, from left to right. An option to which `--` is attached is
given without a value. -/
def takeOptions : List Word → Except Stop Given
  | [] => .ok ⟨[], []⟩
  | .option spec (some value) :: rest =>
    match spec.kind with
    | .value choices =>
      if value = "--" then do return (← takeOptions rest).addOption spec none
      else do
        checkChoice spec value choices
        return (← takeOptions rest).addOption spec (some value)
    | _ => .error (.misuse (.unexpectedValue spec.title value))
  | .option spec none :: .plain value :: rest =>
    match spec.kind with
    | .help => .error .help
    | .flag => do
      return ((← takeOptions rest).addLeftover [value]).addOption spec none
    | .value choices => do
      checkChoice spec value choices
      return (← takeOptions rest).addOption spec (some value)
  | .option spec none :: rest =>
    match spec.kind with
    | .help => .error .help
    | .flag => do return (← takeOptions rest).addOption spec none
    | .value _ => .error (.misuse (.expectedValue spec.title))
  | word :: rest => do return (← takeOptions rest).addLeftover word.leftover

/-- The options that words give; those required must be among them. -/
def readOptions (specs : List OptionSpec) (texts : List String) : Except Stop Given := do
  let words ← (classifyAll specs texts).mapError .misuse
  let given ← takeOptions words
  match given.missing specs with
  | [] => return given
  | missing => throw (.misuse (.missing missing))

end BlockFlow.Cli
