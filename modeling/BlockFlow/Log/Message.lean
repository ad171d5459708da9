import BlockFlow.Json.Display

/-! Messages with values to be put in. -/

namespace BlockFlow.Log

/-- Why values cannot be put into a message. -/
inductive MessageError
  | tooFewValues
  | tooManyValues
  | notANumber (found : Json)
  | notFinite (found : Double)
  | unknownDirective (directive : Char) (index : Nat)
  | endsInPercent
deriving Inhabited

def MessageError.message : MessageError → String
  | tooFewValues => "not enough arguments for format string"
  | tooManyValues => "not all arguments converted during string formatting"
  | notANumber found => "%d format: a real number is required, not " ++ found.kindWord
  | notFinite .nan => "cannot convert float NaN to integer"
  | notFinite _ => "cannot convert float infinity to integer"
  | unknownDirective directive index =>
    "unsupported format character '" ++ String.singleton directive ++ "' (0x" ++
      String.ofList (Nat.toDigits 16 directive.toNat) ++ ") at index " ++ toString index
  | endsInPercent => "incomplete format"

/-- A value as a whole number. -/
def wholeNumber : Json → Except MessageError String
  | .int n => .ok (toString n)
  | .bool b => .ok (if b then "1" else "0")
  | .float x =>
    match x.truncate? with
    | some n => .ok (toString n)
    | none => .error (.notFinite x)
  | v => .error (.notANumber v)

/-- Puts values in for `%s` and `%d`, from the position `i` of the message on. Values may be left over
only if `spare` says so. -/
def fill (spare : Bool) (i : Nat) : List Json → List Char → Except MessageError (List Char)
  | [], [] => .ok []
  | _ :: _, [] => if spare then .ok [] else .error .tooManyValues
  | _, ['%'] => .error .endsInPercent
  | values, '%' :: '%' :: rest => do return '%' :: (← fill spare (i + 2) values rest)
  | [], '%' :: _ :: _ => .error .tooFewValues
  | v :: values, '%' :: 's' :: rest => do
    return v.plainText.toList ++ (← fill spare (i + 2) values rest)
  | v :: values, '%' :: 'd' :: rest => do
    return (← wholeNumber v).toList ++ (← fill spare (i + 2) values rest)
  | _ :: _, '%' :: c :: _ => .error (.unknownDirective c (i + 1))
  | values, c :: rest => do return c :: (← fill spare (i + 1) values rest)

/-- Whether the values are one object with fields, which a message need not use. -/
def isFieldTable : List Json → Bool
  | [.obj (_ :: _)] => true
  | _ => false

/-- A message with its values; without values it stands as it is. -/
def format (message : String) (values : List Json) : Except MessageError String :=
  if values.isEmpty then .ok message
  else (fill (isFieldTable values) 0 values message.toList).map String.ofList

end BlockFlow.Log
