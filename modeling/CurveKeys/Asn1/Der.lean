import CurveKeys.Asn1.Element

/-!
# Asn1 — distinguished encoding

The one distinguished form of a value: the tag in one octet, the length definite and as short as
possible, a string in one piece.
-/

namespace CurveKeys.Asn1.Der

/-- The length octets of a value of `n` octets. -/
def lengthOctets (n : Nat) : Bytes :=
  if n < 128 then [UInt8.ofNat n]
  else
    UInt8.ofNat (0x80 + BigEndian.octetCount n) :: BigEndian.encode (BigEndian.octetCount n) n

/-- A value behind its identifier and length octets. -/
def write (identifier : UInt8) (content : Bytes) : Bytes :=
  identifier :: (lengthOctets content.length ++ content)

/-- A value of a primitive universal type. -/
def primitive (tag : Tag) (content : Bytes) : Bytes := write (UInt8.ofNat tag.number) content

/-- A sequence of encoded elements. -/
def sequence (elements : List Bytes) : Bytes := write 0x30 elements.flatten

/-- An encoded value inside an explicit context tag below 31. -/
def explicit (tag : Nat) (inner : Bytes) : Bytes := write (UInt8.ofNat (0xa0 + tag)) inner

/-- A bit string of whole octets. -/
def bitString (bits : Bytes) : Bytes := primitive .bitString (0 :: bits)

end CurveKeys.Asn1.Der
