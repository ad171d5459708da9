import BlockFlow.Json.Basic
import BlockFlow.Number.Decimal
import BlockFlow.Text.Digits

/-! Reading JSON texts, one character at a time. The reader is a stack machine, so that it ends
with its input and every fault has a place. Besides the standard's grammar it knows the words
`NaN`, `Infinity` and `-Infinity`.

A text here is made of Unicode scalar values, and no surrogate is one. A quoted text that escapes
one half of a surrogate pair without the other is therefore outside of this model, though the
grammar allows it. The reader takes it with U+FFFD in the place of the half: its faults and their
places are right, its value is not, and two such texts can be read alike. -/

namespace BlockFlow.Json

/-- What can be wrong with a text. -/
inductive Fault
  | noValue
  | noName
  | noColon
  | noComma
  | openString
  | controlCharacter
  | badEscape
  | badUnicodeEscape
  | extraData
  | byteOrderMark
deriving DecidableEq

def Fault.message : Fault → String
  | noValue => "Expecting value"
  | noName => "Expecting property name enclosed in double quotes"
  | noColon => "Expecting ':' delimiter"
  | noComma => "Expecting ',' delimiter"
  | openString => "Unterminated string starting at"
  | controlCharacter => "Invalid control character at"
  | badEscape => "Invalid \\escape"
  | badUnicodeEscape => "Invalid \\uXXXX escape"
  | extraData => "Extra data"
  | byteOrderMark => "Unexpected UTF-8 BOM (decode using utf-8-sig)"

/-- A place in a text: characters before it, and its line and column counted from one. -/
structure Place where
  offset : Nat
  line : Nat
  column : Nat
deriving DecidableEq

def Place.ofOffset (chars : List Char) (offset : Nat) : Place :=
  let before := chars.take offset
  ⟨offset, before.count '\n' + 1, (before.reverse.takeWhile (· != '\n')).length + 1⟩

inductive ReadError
  | malformed (fault : Fault) (place : Place)
  | tooManyDigits (count : Nat)
deriving DecidableEq

def ReadError.message : ReadError → String
  | malformed fault place =>
    fault.message ++ ": line " ++ toString place.line ++ " column " ++ toString place.column ++
      " (char " ++ toString place.offset ++ ")"
  | tooManyDigits count =>
    "Exceeds the limit (4300 digits) for integer string conversion: value has " ++ toString count ++
      " digits; use sys.set_int_max_str_digits() to increase the limit"

namespace Reader

/-- Why reading stopped: a fault at an offset, or an integer of too many digits. -/
inductive Stop
  | fault (fault : Fault) (offset : Nat)
  | tooManyDigits (count : Nat)
deriving DecidableEq

/-- A container around the value being read. Items stand last first. -/
inductive Frame
  | array (items : List Json)
  | object (fields : List (String × Json)) (name : String)

/-- What a quoted text is for. -/
inductive Role
  | value
  | name (fields : List (String × Json))

/-- Where the reader is within a quoted text. `plain` carries the place of the last escape of four
digits while no other character has followed it: such an escape cannot end the input. -/
inductive Phase
  | plain (unit : Option Nat)
  | escape (backslash : Nat)
  | unit (mark count value : Nat)

/-- A quoted text so far: its characters last first, and a high surrogate that waits for its low
half. -/
structure Quote where
  role : Role
  opened : Nat
  chars : List Char
  high : Option Nat
  phase : Phase

/-- The part of a number that the last character belongs to. A part that must go on remembers the
place where the number could have ended. -/
inductive Part
  | minus
  | zero
  | whole
  | point (mark : Nat)
  | fraction
  | exponent (mark : Nat)
  | exponentSign (mark : Nat)
  | exponentDigits

/-- A number so far, its characters last first. -/
structure Number where
  start : Nat
  part : Part
  chars : List Char

/-- What the reader is in the middle of. -/
inductive State
  | value (stack : List Frame)
  | firstItem (stack : List Frame)
  | afterItem (items : List Json) (stack : List Frame)
  | firstName (stack : List Frame)
  | nextName (fields : List (String × Json)) (stack : List Frame)
  | afterName (fields : List (String × Json)) (name : String) (stack : List Frame)
  | afterField (fields : List (String × Json)) (stack : List Frame)
  | quote (q : Quote) (stack : List Frame)
  | number (n : Number) (stack : List Frame)
  | word (start : Nat) (rest : List Char) (meaning : Json) (stack : List Frame)
  | done (v : Json)

def isBlank (c : Char) : Bool := c == ' ' || c == '\t' || c == '\n' || c == '\r'

/-- Hands a complete value to the container around it. -/
def deliver (v : Json) : List Frame → State
  | [] => .done v
  | .array items :: stack => .afterItem (v :: items) stack
  | .object fields name :: stack => .afterField (setField name v fields) stack

/-! ### Quoted texts -/

/-- Stands in the place of half a surrogate pair whose other half is missing. No `Char` is such a
half, so a text with this in it is not the one that was escaped. -/
def replacement : Char := '\ufffd'

def isHigh (unit : Nat) : Bool := 0xd800 ≤ unit && unit < 0xdc00

def isLow (unit : Nat) : Bool := 0xdc00 ≤ unit && unit < 0xe000

namespace Quote

def start (role : Role) (opened : Nat) : Quote := ⟨role, opened, [], none, .plain none⟩

/-- The characters, with `replacement` for the half of a pair that is held back. -/
def settled (q : Quote) : List Char := if q.high.isSome then replacement :: q.chars else q.chars

def push (q : Quote) (c : Char) : Quote :=
  { q with chars := c :: q.settled, high := none, phase := .plain none }

/-- Adds the UTF-16 unit whose escape has its letter at `mark`. The first half of a pair is held
back until the unit behind it is known. -/
def pushUnit (q : Quote) (mark unit : Nat) : Quote :=
  match q.high with
  | some high =>
    if isLow unit then
      let c := Char.ofNat (0x10000 + (high - 0xd800) * 0x400 + (unit - 0xdc00))
      { q with chars := c :: q.chars, high := none, phase := .plain (some mark) }
    else if isHigh unit then
      { q with chars := q.settled, high := some unit, phase := .plain (some mark) }
    else { q.push (Char.ofNat unit) with phase := .plain (some mark) }
  | none =>
    if isHigh unit then { q with high := some unit, phase := .plain (some mark) }
    else if isLow unit then { q.push replacement with phase := .plain (some mark) }
    else { q.push (Char.ofNat unit) with phase := .plain (some mark) }

def text (q : Quote) : String := String.ofList q.settled.reverse

/-- The character that an escape letter stands for. -/
def letter? : Char → Option Char
  | '"' => some '"'
  | '\\' => some '\\'
  | '/' => some '/'
  | 'b' => some '\x08'
  | 'f' => some '\x0c'
  | 'n' => some '\n'
  | 'r' => some '\r'
  | 't' => some '\t'
  | _ => none

/-- Ends a quoted text. -/
def close (q : Quote) (stack : List Frame) : State :=
  match q.role with
  | .value => deliver (.str q.text) stack
  | .name fields => .afterName fields q.text stack

def step (q : Quote) (stack : List Frame) (offset : Nat) (c : Char) : Except Stop State :=
  match q.phase with
  | .plain _ =>
    if c = '"' then .ok (q.close stack)
    else if c = '\\' then .ok (.quote { q with phase := .escape offset } stack)
    else if c.toNat < 32 then .error (.fault .controlCharacter offset)
    else .ok (.quote (q.push c) stack)
  | .escape backslash =>
    if c = 'u' then .ok (.quote { q with phase := .unit offset 0 0 } stack)
    else
      match letter? c with
      | some meant => .ok (.quote (q.push meant) stack)
      | none => .error (.fault .badEscape backslash)
  | .unit mark count value =>
    match hexValue? c with
    | none => .error (.fault .badUnicodeEscape mark)
    | some digit =>
      let value := 16 * value + digit
      if count = 3 then .ok (.quote (q.pushUnit mark value) stack)
      else .ok (.quote { q with phase := .unit mark (count + 1) value } stack)

/-- The fault of an input that ends within a quoted text. -/
def unfinished (q : Quote) : Stop :=
  match q.phase with
  | .plain (some mark) | .unit mark _ _ => .fault .badUnicodeEscape mark
  | .plain none | .escape _ => .fault .openString q.opened

end Quote

/-! ### Numbers -/

/-- The most digits that an integer may have. -/
def maxDigits : Nat := 4300

/-- A run of digits with a sign in front. -/
def signedDigits (chars : List Char) : Int :=
  match chars with
  | '-' :: digits => -Nat.ofDigitChars 10 digits 0
  | '+' :: digits => Nat.ofDigitChars 10 digits 0
  | digits => Nat.ofDigitChars 10 digits 0

/-- The number that its characters spell: an integer unless there is a point or an exponent. -/
def numberValue (chars : List Char) : Except Stop Json :=
  let negative := chars.head? == some '-'
  let unsigned := if negative then chars.drop 1 else chars
  let (mantissa, tail) := unsigned.span fun c => c != 'e' && c != 'E'
  let (whole, fraction) := mantissa.span (· != '.')
  if fraction.isEmpty && tail.isEmpty then
    if maxDigits < whole.length then .error (.tooManyDigits whole.length)
    else .ok (.int (Double.signed negative (Nat.ofDigitChars 10 whole 0)))
  else
    let fraction := fraction.drop 1
    let coefficient := Nat.ofDigitChars 10 (whole ++ fraction) 0
    .ok (.float (.ofDecimal negative ⟨coefficient, signedDigits (tail.drop 1) - fraction.length⟩))

namespace Number

/-- The next part, if the number goes on with `c`. -/
def next? (n : Number) (offset : Nat) (c : Char) : Option Part :=
  match n.part with
  | .minus => if c = '0' then some .zero else if c.isDigit then some .whole else none
  | .zero => if c = '.' then some (.point offset) else exponent?
  | .whole =>
    if c.isDigit then some .whole else if c = '.' then some (.point offset) else exponent?
  | .point _ => if c.isDigit then some .fraction else none
  | .fraction => if c.isDigit then some .fraction else exponent?
  | .exponent mark =>
    if c.isDigit then some .exponentDigits
    else if c = '+' ∨ c = '-' then some (.exponentSign mark)
    else none
  | .exponentSign _ => if c.isDigit then some .exponentDigits else none
  | .exponentDigits => if c.isDigit then some .exponentDigits else none
where
  exponent? : Option Part := if c = 'e' ∨ c = 'E' then some (.exponent offset) else none

/-- How the number ends if it does not go on: nowhere, after all its characters, or before the
character at a mark. -/
inductive Ending
  | never
  | here
  | before (mark : Nat)

def ending (n : Number) : Ending :=
  match n.part with
  | .minus => .never
  | .zero | .whole | .fraction | .exponentDigits => .here
  | .point mark | .exponent mark | .exponentSign mark => .before mark

def value (n : Number) : Except Stop Json := numberValue n.chars.reverse

/-- The value of the characters before `mark`, and the character there. -/
def valueBefore (n : Number) (mark : Nat) : Except Stop (Json × Char) :=
  let chars := n.chars.reverse
  do return (← numberValue (chars.take (mark - n.start)), (chars.drop (mark - n.start)).headD ' ')

end Number

/-! ### The machine -/

/-- The first character of a value. -/
def startValue (stack : List Frame) (offset : Nat) (c : Char) : Except Stop State :=
  match c with
  | '"' => .ok (.quote (.start .value offset) stack)
  | '[' => .ok (.firstItem stack)
  | '\x7b' => .ok (.firstName stack)
  | '-' => .ok (.number ⟨offset, .minus, ['-']⟩ stack)
  | '0' => .ok (.number ⟨offset, .zero, ['0']⟩ stack)
  | 'n' => .ok (.word offset ['u', 'l', 'l'] .null stack)
  | 't' => .ok (.word offset ['r', 'u', 'e'] (.bool true) stack)
  | 'f' => .ok (.word offset ['a', 'l', 's', 'e'] (.bool false) stack)
  | 'N' => .ok (.word offset ['a', 'N'] (.float .nan) stack)
  | 'I' => .ok (.word offset ['n', 'f', 'i', 'n', 'i', 't', 'y'] (.float (.infinite false)) stack)
  | c =>
    if c.isDigit then .ok (.number ⟨offset, .whole, [c]⟩ stack) else .error (.fault .noValue offset)

/-- One character, read where no value is half read. -/
def stepBetween (s : State) (offset : Nat) (c : Char) : Except Stop State :=
  if isBlank c then .ok s
  else
    match s with
    | .value stack => startValue stack offset c
    | .firstItem stack =>
      if c = ']' then .ok (deliver (.arr []) stack) else startValue (.array [] :: stack) offset c
    | .afterItem items stack =>
      if c = ',' then .ok (.value (.array items :: stack))
      else if c = ']' then .ok (deliver (.arr items.reverse) stack)
      else .error (.fault .noComma offset)
    | .firstName stack =>
      if c = '"' then .ok (.quote (.start (.name []) offset) stack)
      else if c = '\x7d' then .ok (deliver (.obj []) stack)
      else .error (.fault .noName offset)
    | .nextName fields stack =>
      if c = '"' then .ok (.quote (.start (.name fields) offset) stack)
      else .error (.fault .noName offset)
    | .afterName fields name stack =>
      if c = ':' then .ok (.value (.object fields name :: stack)) else .error (.fault .noColon offset)
    | .afterField fields stack =>
      if c = ',' then .ok (.nextName fields stack)
      else if c = '\x7d' then .ok (deliver (.obj fields) stack)
      else .error (.fault .noComma offset)
    | _ => .error (.fault .extraData offset)

/-- The state after a number that does not go on with the next character. -/
def endNumber (n : Number) (stack : List Frame) : Except Stop State :=
  match n.ending with
  | .never => .error (.fault .noValue n.start)
  | .here => do return deliver (← n.value) stack
  | .before mark => do
    let (v, c) ← n.valueBefore mark
    stepBetween (deliver v stack) mark c

/-- One character. -/
def step (s : State) (offset : Nat) (c : Char) : Except Stop State :=
  match s with
  | .quote q stack => q.step stack offset c
  | .word start rest meaning stack =>
    match rest with
    | [] => stepBetween (deliver meaning stack) offset c
    | [last] => if c = last then .ok (deliver meaning stack) else .error (.fault .noValue start)
    | d :: rest =>
      if c = d then .ok (.word start rest meaning stack) else .error (.fault .noValue start)
  | .number n stack =>
    match n.next? offset c with
    | some part => .ok (.number { n with part, chars := c :: n.chars } stack)
    | none =>
      if n.part matches .minus && c == 'I' then
        .ok (.word n.start ['n', 'f', 'i', 'n', 'i', 't', 'y'] (.float (.infinite true)) stack)
      else do stepBetween (← endNumber n stack) offset c
  | s => stepBetween s offset c

/-- The value read by the end of the input. -/
def finishBetween (s : State) (offset : Nat) : Except Stop Json :=
  match s with
  | .done v => .ok v
  | .value _ | .firstItem _ => .error (.fault .noValue offset)
  | .afterItem _ _ | .afterField _ _ => .error (.fault .noComma offset)
  | .firstName _ | .nextName _ _ => .error (.fault .noName offset)
  | .afterName _ _ _ => .error (.fault .noColon offset)
  | .quote q _ => .error q.unfinished
  | .word start _ _ _ => .error (.fault .noValue start)
  | .number n _ => .error (.fault .noValue n.start)

def finish (s : State) (offset : Nat) : Except Stop Json :=
  match s with
  | .number n stack => do finishBetween (← endNumber n stack) offset
  | s => finishBetween s offset

def run (s : State) (offset : Nat) : List Char → Except Stop Json
  | [] => finish s offset
  | c :: rest => do run (← step s offset c) (offset + 1) rest

end Reader

/-- The value that a text spells. -/
def read (source : String) : Except ReadError Json :=
  let chars := source.toList
  if chars.head? = some '\ufeff' then
    .error (.malformed .byteOrderMark (Place.ofOffset chars 0))
  else
    match Reader.run (.value []) 0 chars with
    | .ok v => .ok v
    | .error (.fault fault offset) => .error (.malformed fault (Place.ofOffset chars offset))
    | .error (.tooManyDigits count) => .error (.tooManyDigits count)

end BlockFlow.Json
