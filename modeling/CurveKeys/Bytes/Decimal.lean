import CurveKeys.Bytes.Text

/-!
# Bytes — decimal numbers

Numbers are written without leading zeros or plus sign. Reading a 64-bit integer takes white space,
a sign and the longest run of digits, and leaves the rest of the text to the caller.
-/

namespace CurveKeys.Decimal

/-- The decimal digits of a number. -/
def ofNat (n : Nat) : Bytes :=
  if n < 10 then [UInt8.ofNat (0x30 + n)] else ofNat (n / 10) ++ [UInt8.ofNat (0x30 + n % 10)]

/-- An integer, with a minus sign when negative. -/
def ofInt : Int → Bytes
  | .ofNat n   => ofNat n
  | .negSucc n => 0x2d :: ofNat (n + 1)

/-- `n` right-aligned in `width` columns, zeros to its left. -/
def padded (width : Nat) (n : Int) : Bytes := (ofInt n).leftpad width 0x30

/-- The number a run of digits denotes. -/
def value (digits : Bytes) : Nat := digits.foldl (fun acc c => acc * 10 + (c - 0x30).toNat) 0

/-- The signed 64-bit range. -/
def inInt64 (z : Int) : Bool := -0x8000000000000000 ≤ z && z < 0x8000000000000000

/-- Reads a sign. -/
def readSign : Bytes → Bool × Bytes
  | 0x2d :: rest => (true, rest)
  | 0x2b :: rest => (false, rest)
  | s            => (false, s)

/-- Reads white space, an optional sign and digits up to the first other octet; none without a digit
or outside the signed 64-bit range. -/
def readInt64? (s : Bytes) : Option (Int × Bytes) :=
  let (negative, body) := readSign (s.dropWhile Text.isSpace)
  let digits := body.takeWhile Text.isDigit
  let magnitude : Int := value digits
  let z := if negative then -magnitude else magnitude
  if digits.isEmpty || !inInt64 z then none else some (z, body.dropWhile Text.isDigit)

end CurveKeys.Decimal
