import BlockFlow.Json.Display

/-! Files: what opening a path for reading or writing does. -/

namespace BlockFlow

/-- Why a path cannot be opened. -/
inductive FileFault
  | notFound
  | denied
  | notADirectory
  | isADirectory
  | nameTooLong
  | nullByte
  | other (number : Nat) (reason : String)
deriving DecidableEq

structure FileError where
  fault : FileFault
  path : String
deriving DecidableEq

def FileError.message (e : FileError) : String :=
  match e.fault with
  | .notFound => "[Errno 2] No such file or directory: " ++ displayText e.path
  | .denied => "[Errno 13] Permission denied: " ++ displayText e.path
  | .notADirectory => "[Errno 20] Not a directory: " ++ displayText e.path
  | .isADirectory => "[Errno 21] Is a directory: " ++ displayText e.path
  | .nameTooLong => "[Errno 36] File name too long: " ++ displayText e.path
  | .nullByte => "embedded null byte"
  | .other number reason =>
    "[Errno " ++ toString number ++ "] " ++ reason ++ ": " ++ displayText e.path

/-- Access to files: the text at a path, and whether a path can be written. -/
structure Files where
  read : String → Except FileError String
  refusal : String → Option FileError

end BlockFlow
