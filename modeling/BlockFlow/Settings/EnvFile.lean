import BlockFlow.Text.Blank
import BlockFlow.Text.Newlines

/-! Files of environment variables: one `NAME = value` a line, with comments, quotes and references
to other variables. -/

namespace BlockFlow.EnvFile

/-- A variable, without a value where its line has no `=`. -/
structure Binding where
  name : String
  value : Option String
deriving DecidableEq

/-- Text up to a closing quote, and what follows it. A backslash keeps the next character from
closing it. -/
def quotedBody (quote : Char) : List Char → Option (List Char × List Char)
  | [] => none
  | '\\' :: c :: rest =>
    (quotedBody quote rest).map fun (body, after) => ('\\' :: c :: body, after)
  | c :: rest =>
    if c = quote then some ([], rest)
    else (quotedBody quote rest).map fun (body, after) => (c :: body, after)

/-- What an escape stands for between quotes; single quotes know only their own. -/
def escaped? (quote c : Char) : Option Char :=
  if c = '\\' ∨ c = '\'' then some c
  else if quote = '\'' then none
  else
    match c with
    | '"' => some '"'
    | 'a' => some '\x07'
    | 'b' => some '\x08'
    | 'f' => some '\x0c'
    | 'n' => some '\n'
    | 'r' => some '\r'
    | 't' => some '\t'
    | 'v' => some '\x0b'
    | _ => none

def unescape (quote : Char) : List Char → List Char
  | [] => []
  | ['\\'] => ['\\']
  | '\\' :: c :: rest =>
    match escaped? quote c with
    | some meant => meant :: unescape quote rest
    | none => '\\' :: unescape quote (c :: rest)
  | c :: rest => c :: unescape quote rest

/-- An unquoted value: a comment starts at a `#` behind white space. -/
def unquoted : List Char → List Char
  | [] => []
  | c :: rest =>
    if isBlank c && (rest.dropWhile isBlank).head? == some '#' then [] else c :: unquoted rest

/-- The rest of a line, and the lines after it. -/
def splitLine (chars : List Char) : List Char × List Char := chars.span (· != '\n')

/-- What is left of a line after a binding: at most a comment. -/
def lineEnd? (chars : List Char) : Option (List Char) :=
  let chars := chars.dropWhile isInlineBlank
  match if chars.head? = some '#' then (splitLine chars).2 else chars with
  | [] => some []
  | '\n' :: rest => some rest
  | _ => none

/-- A name, which may stand in single quotes. -/
def name? : List Char → Option (List Char × List Char)
  | '\'' :: rest =>
    let (name, after) := rest.span (· != '\'')
    match name, after with
    | _ :: _, _ :: after => some (name, after)
    | _, _ => none
  | chars =>
    let (name, after) := chars.span fun c => c != '=' && c != '#' && !isBlank c
    if name.isEmpty then none else some (name, after)

/-- A value behind the `=`: in quotes, or the rest of the line. -/
def value? (chars : List Char) : Option (List Char × List Char) :=
  match chars.dropWhile isInlineBlank with
  | '\'' :: rest => (quotedBody '\'' rest).map fun (body, after) => (unescape '\'' body, after)
  | '"' :: rest => (quotedBody '"' rest).map fun (body, after) => (unescape '"' body, after)
  | _ =>
    let (line, after) := splitLine chars
    some (trimChars isBlank (unquoted line), after)

/-- Drops the word `export` in front of a name. -/
def dropExport (chars : List Char) : List Char :=
  match chars with
  | 'e' :: 'x' :: 'p' :: 'o' :: 'r' :: 't' :: rest =>
    if (rest.head?.map isInlineBlank).getD false then rest.dropWhile isInlineBlank else chars
  | _ => chars

/-- One statement: the binding, if it makes one, and the text after it. A line that is no statement
is skipped from the place where it goes wrong. -/
def statement (chars : List Char) : Option Binding × List Char :=
  let skip (chars : List Char) : List Char := (splitLine chars).2.drop 1
  let chars := dropExport chars
  if chars.head? = some '#' then
    match lineEnd? chars with
    | some rest => (none, rest)
    | none => (none, skip chars)
  else
    match name? chars with
    | none => (none, skip chars)
    | some (name, after) =>
      let after := after.dropWhile isInlineBlank
      match after with
      | '=' :: rest =>
        match value? rest with
        | none => (none, skip rest)
        | some (value, rest) =>
          match lineEnd? rest with
          | some rest => (some ⟨String.ofList name, some (String.ofList value)⟩, rest)
          | none => (none, skip rest)
      | after =>
        match lineEnd? after with
        | some rest => (some ⟨String.ofList name, none⟩, rest)
        | none => (none, skip after)

/-- The bindings of a file in order. Each statement takes at least one character. -/
def parseFrom (chars : List Char) : List Binding :=
  match chars.dropWhile isBlank with
  | [] => []
  | c :: rest =>
    let (binding, after) := statement (c :: rest)
    binding.toList ++ if after.length < chars.length then parseFrom after else []
termination_by chars.length

/-- The bindings of a text, which may start with a byte order mark. -/
def parse (text : String) : List Binding :=
  let chars := unifyNewlines text.toList
  parseFrom (if chars.head? = some '\ufeff' then chars.drop 1 else chars)

/-- A reference `${name}` or `${name:-default}` at the front of a text. -/
structure Reference where
  name : String
  default : String
  length : Nat
deriving DecidableEq

def reference? : List Char → Option Reference
  | '$' :: '\x7b' :: rest =>
    let (name, after) := rest.span fun c => c != '\x7d' && c != ':'
    match after with
    | '\x7d' :: _ => some ⟨String.ofList name, "", name.length + 3⟩
    | ':' :: '-' :: after =>
      let (default, after) := after.span (· != '\x7d')
      match after with
      | [] => none
      | _ => some ⟨String.ofList name, String.ofList default, name.length + default.length + 5⟩
    | _ => none
  | _ => none

/-- A value with its references resolved, from behind the first `skip` characters. -/
def expandFrom (lookup : String → Option String) : Nat → List Char → List Char
  | _, [] => []
  | skip + 1, _ :: rest => expandFrom lookup skip rest
  | 0, c :: rest =>
    match reference? (c :: rest) with
    | some r => ((lookup r.name).getD r.default).toList ++ expandFrom lookup (r.length - 1) rest
    | none => c :: expandFrom lookup 0 rest

/-- Sets a variable. One that is already there keeps its place. -/
def assign (name : String) (value : Option String) :
    List (String × Option String) → List (String × Option String)
  | [] => [(name, value)]
  | (k, v) :: rest =>
    if k = name then (k, value) :: rest else (k, v) :: assign name value rest

/-- The variables of a file. A reference finds an earlier one of the file, else one of the
environment. -/
def assignments (environment : List (String × String)) (text : String) :
    List (String × Option String) :=
  (parse text).foldl (fun known b =>
    let lookup (name : String) : Option String :=
      match known.lookup name with
      | some value => some (value.getD "")
      | none => environment.lookup name
    assign b.name (b.value.map fun v => String.ofList (expandFrom lookup 0 v.toList)) known) []

end BlockFlow.EnvFile
