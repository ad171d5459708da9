/-! Replacing a part of a text. -/

namespace BlockFlow

/-- Replaces the first occurrence of `old`. -/
def replaceFirst (old new : List Char) : List Char → List Char
  | [] => if old.isEmpty then new else []
  | c :: rest =>
    if old.isPrefixOf (c :: rest) then new ++ (c :: rest).drop old.length
    else c :: replaceFirst old new rest

end BlockFlow
