import CurveKeys.Curve.Parameters
import CurveKeys.Digest.Value
import CurveKeys.Journal.Traced
import CurveKeys.Keys.Error

/-!
# Keys — public keys

A public key is a pair of coordinates together with the form it is written in: 33 octets, a tag for
the parity of the second coordinate and the first coordinate, or 65 octets, a tag and both.

* `PublicKey.encode`, `PublicKey.parse`: writes and reads either form; reading takes points of the
  curve only.
* `PublicKey.derive`: the public key of a scalar.
-/

namespace CurveKeys

/-- A coordinate as it is stored, an unsigned number of 256 bits. -/
abbrev Coordinate := BitVec 256

namespace Coordinate

/-- The coordinate of a field element. -/
def ofField (a : Curve.FieldElement) : Coordinate := BitVec.ofNat 256 a.val

/-- The number that 32 octets denote. -/
def ofBytes (b : Bytes) : Coordinate := BitVec.ofNat 256 (BigEndian.value b)

/-- Exactly 32 octets, most significant first. -/
def toBytes (c : Coordinate) : Bytes := BigEndian.encode Curve.coordinateSize c.toNat

/-- The field element of a coordinate below the order of the field. -/
def field? (c : Coordinate) : Option Curve.FieldElement :=
  if h : c.toNat < Curve.prime then some ⟨c.toNat, h⟩ else none

@[simp] theorem length_toBytes (c : Coordinate) : (toBytes c).length = 32 :=
  BigEndian.length_encode _ _

end Coordinate

/-- The coordinates of a public key, and the form it is written in. -/
structure PublicKey where
  x : Coordinate
  y : Coordinate
  compressed : Bool
  deriving DecidableEq

namespace PublicKey

/-- The length of the two forms. -/
def compressedSize : Nat := 33
def uncompressedSize : Nat := 65

/-- The tag octet: for the compressed form, by the parity of the second coordinate. -/
def tag (k : PublicKey) : UInt8 :=
  if k.compressed then (if k.y.toNat % 2 = 1 then 0x03 else 0x02) else 0x04

/-- The octets of the form that was asked for. -/
def encode (k : PublicKey) : Bytes :=
  k.tag :: (k.x.toBytes ++ if k.compressed then [] else k.y.toBytes)

def toHex (k : PublicKey) : Bytes := Hex.encode k.encode

/-- The same point in the given form. -/
def withCompression (k : PublicKey) (compressed : Bool) : PublicKey := { k with compressed }

/-- Whether two keys are the same point, in whatever form. -/
def samePoint (k l : PublicKey) : Bool := k.x == l.x && k.y == l.y

/-- The digest of the encoding, by which the key is addressed. -/
def digest (k : PublicKey) : Digest 20 := hash160 k.encode

/-- The point of the curve with a given first coordinate and parity of the second. -/
def lift? (x : Coordinate) (odd : Bool) : Option (Curve.FieldElement × Curve.FieldElement) := do
  let x ← x.field?
  let root ← (Curve.cubic x).sqrt?
  some (x, if root.isOdd = odd then root else -root)

/-- The point of the curve with given coordinates. -/
def check? (x y : Coordinate) : Option (Curve.FieldElement × Curve.FieldElement) := do
  let x ← x.field?
  let y ← y.field?
  if Curve.onCurve x y then some (x, y) else none

/-- The key of a point of the curve. -/
def ofCoordinates (compressed : Bool) (xy : Curve.FieldElement × Curve.FieldElement) : PublicKey :=
  ⟨.ofField xy.1, .ofField xy.2, compressed⟩

/-- Reads either form. The tag decides what the length must be; the tags of the point at infinity
and of the hybrid form are known but not supported. -/
def parse : Bytes → Except KeyError PublicKey
  | [] => .error (.invalidKey .emptyPoint)
  | tag :: body =>
    if tag = 0x00 ∨ tag = 0x06 ∨ tag = 0x07 then .error (.unsupportedEncoding .point tag)
    else if tag = 0x02 ∨ tag = 0x03 then
      if body.length + 1 ≠ compressedSize then
        .error (.invalidKey (.compressedLength (body.length + 1)))
      else
        ((lift? (.ofBytes body) (tag = 0x03)).map (ofCoordinates true)).elim
          (.error (.invalidKey .notOnCurve)) .ok
    else if tag = 0x04 then
      if body.length + 1 ≠ uncompressedSize then
        .error (.invalidKey (.uncompressedLength (body.length + 1)))
      else
        ((check? (.ofBytes (body.take 32)) (.ofBytes (body.drop 32))).map
          (ofCoordinates false)).elim (.error (.invalidKey .notOnCurve)) .ok
    else .error (.invalidKey (.unknownTag tag))

/-- What reading reports when it fails. -/
def parseNote : KeyError → Note
  | .unsupportedEncoding _ tag =>
    .debug .keys "Keys/Public.lean" 1
      (Bytes.ascii "Unsupported point encoding tag " ++ shownTag tag)
  | e => .debug .keys "Keys/Public.lean" 2 (Bytes.ascii "Rejected public key: " ++ e.message)

/-- Reads either form, and reports a failure. -/
def decode (b : Bytes) : Traced KeyError PublicKey :=
  match parse b with
  | .ok k    => pure k
  | .error e => .fail e (parseNote e)

/-- A scalar with at most as many bits as the order of the curve stays as it is; a longer one is
reduced, which is reported. -/
def shorten (d : Scalar) : Traced KeyError Scalar :=
  if Curve.orderScalar.bitLength < d.bitLength then do
    let reduced ← (d.remainder Curve.orderScalar).mapError .failed
    Traced.report (.debug .keys "Keys/Public.lean" 3
      (Bytes.ascii "Reduced " ++ Decimal.ofNat d.bitLength
        ++ Bytes.ascii "-bit scalar modulo the curve order"))
    pure reduced
  else pure d

/-- The multiple of the base point by `d`, in uncompressed form. There is none for a multiple of
the order. -/
def derive (d : Scalar) : Traced KeyError PublicKey := do
  let d ← shorten d
  let d ← d.held.mapError .failed
  match Curve.Point.mul d.value Curve.generator with
  | .infinity   => InvalidKey.refusePrivate .multipleOfOrder
  | .affine x y => pure (ofCoordinates false (x, y))

end PublicKey

end CurveKeys
