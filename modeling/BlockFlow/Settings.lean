import BlockFlow.Ids
import BlockFlow.Settings.EnvFile
import BlockFlow.Text.LowerCase

/-! Settings, as the environment and a file of variables give them. -/

namespace BlockFlow

structure Settings where
  debug : Bool := false
  logLevel : String := "INFO"
  logFormat : String := "detailed"
  blockIdStrategy : String := "sequential"
  blockIdLabel : String := "b"
  minForkPaths : Int := 2
  strictCanonicalization : Bool := false
deriving DecidableEq

/-- What is wrong with the settings. -/
inductive SettingsIssue
  | notABoolean (field : String)
  | notAnInteger (field : String)
  | integerTooLong (field : String)
  | unknownName (name : String)
deriving DecidableEq

namespace SettingsIssue

def place : SettingsIssue → String
  | notABoolean field | notAnInteger field | integerTooLong field => field
  | unknownName name => name

def type : SettingsIssue → String
  | notABoolean _ => "bool_parsing"
  | notAnInteger _ => "int_parsing"
  | integerTooLong _ => "int_parsing_size"
  | unknownName _ => "extra_forbidden"

def message : SettingsIssue → String
  | notABoolean _ => "Input should be a valid boolean, unable to interpret input"
  | notAnInteger _ => "Input should be a valid integer, unable to parse string as an integer"
  | integerTooLong _ =>
    "Unable to parse input string as an integer, exceeded maximum size"
  | unknownName _ => "Extra inputs are not permitted"

end SettingsIssue

namespace Settings

/-- The names of the settings in order. -/
def fieldNames : List String :=
  ["debug", "log_level", "log_format", "block_id_strategy", "block_id_prefix", "min_fork_paths",
    "strict_canonicalization"]

/-- Reads a value that is true or false. -/
def boolean (name text : String) : Except SettingsIssue Bool :=
  let word := String.ofList (text.toList.map Char.toLower)
  if word ∈ ["1", "on", "t", "true", "y", "yes"] then .ok true
  else if word ∈ ["0", "off", "f", "false", "n", "no"] then .ok false
  else .error (.notABoolean name)

/-- What stands behind zeros and the underscores among them: the rest from another digit or a minus
on, or else the last of them. -/
def behindZeros (last : Char) : List Char → Option (List Char)
  | [] => some [last]
  | c :: rest =>
    if c = '0' ∨ c = '_' then behindZeros c rest
    else if c.isDigit ∨ c = '-' then some (c :: rest)
    else none

/-- A number without the zeros in front of it. -/
def withoutZeros : List Char → Option (List Char)
  | '-' :: rest => (withoutZeros rest).map ('-' :: ·)
  | '0' :: rest => behindZeros '0' rest
  | c :: rest => if c.isDigit then some (c :: rest) else none
  | [] => none

/-- A number without a fraction of zeros. -/
def withoutFraction (chars : List Char) : List Char :=
  let (whole, fraction) := chars.span (· != '.')
  let zeros := fraction.drop 1
  if !zeros.isEmpty && zeros.all (· == '0') then whole else chars

/-- A number without the underscores in it, if each stands between two other characters. -/
def withoutUnderscores (chars : List Char) : List Char :=
  let groups := chars.splitOn '_'
  if groups.all (!·.isEmpty) then groups.flatten else chars

/-- The part of a number that counts. Only a plus may stand in front of it. -/
def significant? (chars : List Char) : Option (List Char) :=
  let chars := trimChars isSpace chars
  let unsigned :=
    match chars with
    | '+' :: '-' :: _ => none
    | '+' :: rest => some rest
    | _ => some chars
  (unsigned.bind fun chars => withoutZeros (withoutFraction chars)).map withoutUnderscores

/-- The most places of a number, with its sign. -/
def maxPlaces : Nat := 4300

/-- Reads an integer, with white space around it, a sign, zeros in front, single underscores between
digits and a fraction of zeros. -/
def integer (name text : String) : Except SettingsIssue Int :=
  match significant? text.toList with
  | none => .error (.notAnInteger name)
  | some chars =>
    let negative := chars.head? == some '-'
    let (digits, after) := (if negative then chars.drop 1 else chars).span Char.isDigit
    if digits.isEmpty || digits.head? == some '0' && digits.length != 1 then
      .error (.notAnInteger name)
    else if maxPlaces < digits.length + negative.toNat then .error (.integerTooLong name)
    else if !after.isEmpty then .error (.notAnInteger name)
    else
      let n : Nat := Nat.ofDigitChars 10 digits 0
      .ok (if negative then -n else n)

/-- A value, or the default where there is none. -/
def field {α : Type} (read : String → Except SettingsIssue α) (default : α) :
    Option String → List SettingsIssue × α
  | none => ([], default)
  | some text =>
    match read text with
    | .ok value => ([], value)
    | .error issue => ([issue], default)

/-- The settings of a table of values under lower-case names. -/
def ofTable (table : String → Option String) : List SettingsIssue × Settings :=
  let base : Settings := {}
  let boolField (name : String) (default : Bool) :=
    field (boolean name) default (table name)
  let text (name default : String) : String := (table name).getD default
  let (debugIssues, debug) := boolField "debug" base.debug
  let (pathIssues, minForkPaths) :=
    field (integer "min_fork_paths") base.minForkPaths (table "min_fork_paths")
  let (strictIssues, strictCanonicalization) :=
    boolField "strict_canonicalization" base.strictCanonicalization
  (debugIssues ++ pathIssues ++ strictIssues,
    { debug, minForkPaths, strictCanonicalization,
      logLevel := text "log_level" base.logLevel,
      logFormat := text "log_format" base.logFormat,
      blockIdStrategy := text "block_id_strategy" base.blockIdStrategy,
      blockIdLabel := text "block_id_prefix" base.blockIdLabel })

/-- Variables under lower-case names, the last of a name winning. -/
def lowerNames (entries : List (String × Option String)) : List (String × Option String) :=
  entries.foldl (fun table (name, value) => EnvFile.assign (lowerCase name) value table) []

/-- The settings of an environment and of a file of variables, over which the environment wins. The
file may hold no other names. -/
def read (environment : List (String × String)) (file : Option String) :
    Except (List SettingsIssue) Settings :=
  let ofEnvironment := lowerNames (environment.map fun (name, value) => (name, some value))
  let ofFile := lowerNames ((file.map (EnvFile.assignments environment)).getD [])
  let table (name : String) : Option String :=
    ((ofEnvironment.lookup name).getD none).or ((ofFile.lookup name).getD none)
  let strangers := ofFile.filterMap fun (name, value) =>
    if (value.getD "").isEmpty || fieldNames.contains name then none
    else some (SettingsIssue.unknownName name)
  let (issues, settings) := ofTable table
  if issues.isEmpty && strangers.isEmpty then .ok settings else .error (issues ++ strangers)

/-- The strategy for block ids. An absent or empty name, or an absent label, is the configured
one. -/
def idStrategy (s : Settings) (name label : Option String) : Except UnknownStrategy IdStrategy :=
  let name := name.getD ""
  IdStrategy.named (if name = "" then s.blockIdStrategy else name) (label.getD s.blockIdLabel)

end Settings

end BlockFlow
