import CurveKeys.Bytes.Decimal

/-!
# Bytes — hexadecimal text

Two digits an octet, high digit first. Writing uses lower case; reading takes either case and skips
one leading `0x` or `0X`.

* `Hex.decode`: reads a text, or says why it cannot: an odd number of digits is reported before any
  bad digit, and a bad digit by the offset of the pair it stands in.
* `Hex.isValid`: whether a text reads to at least one octet.
-/

namespace CurveKeys

/-- Why a text is not hexadecimal. -/
inductive Hex.Error where
  | oddLength
  | badDigit (offset : Nat)
  deriving DecidableEq, Repr

namespace Hex

def Error.message : Error → Bytes
  | oddLength       => Bytes.ascii "odd number of hex digits"
  | badDigit offset => Bytes.ascii "non-hex character at offset " ++ Decimal.ofNat offset

/-- The digit that stands for a value below 16. -/
def digit (v : UInt8) : UInt8 := if v < 10 then 0x30 + v else 0x57 + v

/-- The value of a digit, in either case. -/
def value? (c : UInt8) : Option UInt8 :=
  if 0x30 ≤ c ∧ c ≤ 0x39 then some (c - 0x30)
  else if 0x61 ≤ c ∧ c ≤ 0x66 then some (c - 0x57)
  else if 0x41 ≤ c ∧ c ≤ 0x46 then some (c - 0x37)
  else none

/-- Two lower-case digits an octet. -/
def encode (b : Bytes) : Bytes := b.flatMap fun (x : UInt8) => [digit (x >>> 4), digit (x &&& 0x0f)]

/-- A text without its leading `0x` or `0X`. -/
def digits : Bytes → Bytes
  | 0x30 :: 0x78 :: rest => rest
  | 0x30 :: 0x58 :: rest => rest
  | text => text

/-- Reads pairs of digits, the first of which stands at `offset`. -/
def decodePairs (offset : Nat) : Bytes → Except Error Bytes
  | hi :: lo :: rest =>
    match value? hi, value? lo with
    | some h, some l => (decodePairs (offset + 2) rest).map ((h <<< 4 ||| l) :: ·)
    | _, _ => .error (.badDigit offset)
  | [_] => .error .oddLength
  | [] => .ok []

/-- The octets a text denotes. -/
def decode (text : Bytes) : Except Error Bytes :=
  if (digits text).length % 2 = 1 then .error .oddLength else decodePairs 0 (digits text)

/-- At least one pair of digits, and digits only. -/
def isValid (text : Bytes) : Bool :=
  !(digits text).isEmpty && (digits text).length % 2 == 0
    && (digits text).all fun c => (value? c).isSome

end Hex

end CurveKeys
