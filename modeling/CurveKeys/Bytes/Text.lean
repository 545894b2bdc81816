import CurveKeys.Bytes.Basic

/-!
# Bytes — text conventions

Character classes on octets: letters, digits and blanks are those of ASCII, and no octet above
`0x7f` belongs to any of them.

* `Text.lines`: the lines of a text; a final newline ends the last line and starts no other.
* `Text.trim`: a text without the blanks around it.
-/

namespace CurveKeys.Text

/-- The newline octet. -/
abbrev newline : UInt8 := 0x0a

def isLower (c : UInt8) : Bool := 0x61 ≤ c && c ≤ 0x7a
def isUpper (c : UInt8) : Bool := 0x41 ≤ c && c ≤ 0x5a
def isDigit (c : UInt8) : Bool := 0x30 ≤ c && c ≤ 0x39

/-- Space, tab, carriage return and newline. -/
def isBlank (c : UInt8) : Bool := c == 0x20 || c == 0x09 || c == 0x0d || c == 0x0a

/-- White space in the wide sense: the blanks, the vertical tab and the form feed. -/
def isSpace (c : UInt8) : Bool := c == 0x20 || (0x09 ≤ c && c ≤ 0x0d)

/-- ASCII capitals become small letters. -/
def lower (s : Bytes) : Bytes := s.map fun c => if isUpper c then c + 0x20 else c

/-- ASCII small letters become capitals. -/
def upper (s : Bytes) : Bytes := s.map fun c => if isLower c then c - 0x20 else c

/-- `s` without the blanks at its end. -/
def trimEnd (s : Bytes) : Bytes := (s.reverse.dropWhile isBlank).reverse

/-- `s` without the blanks around it. -/
def trim (s : Bytes) : Bytes := trimEnd (s.dropWhile isBlank)

/-- The pieces between separators, where a separator at the very end starts no piece. -/
def pieces (separator : UInt8) (s : Bytes) : List Bytes :=
  let parts := s.splitOn separator
  if parts.getLast? = some [] then parts.dropLast else parts

/-- The lines of a text. -/
def lines (s : Bytes) : List Bytes := pieces newline s

/-- What stands before and after the first `c`, if `c` occurs. -/
def splitFirst? (c : UInt8) (s : Bytes) : Option (Bytes × Bytes) :=
  match s.dropWhile (· != c) with
  | []        => none
  | _ :: rest => some (s.takeWhile (· != c), rest)

end CurveKeys.Text
