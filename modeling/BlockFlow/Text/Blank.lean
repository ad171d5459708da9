/-! White space, and the ends of a text without it. -/

namespace BlockFlow

/-- White space of any script. -/
def isBlank (c : Char) : Bool :=
  let n := c.toNat
  9 ≤ n && n ≤ 13 || 28 ≤ n && n ≤ 32 || n == 0x85 || n == 0xa0 || n == 0x1680 ||
    0x2000 ≤ n && n ≤ 0x200a || n == 0x2028 || n == 0x2029 || n == 0x202f || n == 0x205f ||
    n == 0x3000

/-- White space of any script, the separators of files, groups, records and units aside. -/
def isSpace (c : Char) : Bool := isBlank c && !(28 ≤ c.toNat && c.toNat ≤ 31)

/-- White space that does not end a line. -/
def isInlineBlank (c : Char) : Bool := isBlank c && c != '\n'

/-- A text without the characters of a class at its ends. -/
def trimChars (outer : Char → Bool) (chars : List Char) : List Char :=
  ((chars.dropWhile outer).reverse.dropWhile outer).reverse

end BlockFlow
