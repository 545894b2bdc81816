import CurveKeys.Asn1.Der
import CurveKeys.Curve.Group
import CurveKeys.Journal.Note
import CurveKeys.Scalar

/-!
# Curve — parameters

The constants of the curve in the forms in which they are compared, written and shown.

* `Curve.encodedParameters`: the explicit parameters, as records carry them.
* `Curve.readyNotes`: what setting up the curve reports.
-/

namespace CurveKeys.Curve

/-- The order of the base point as a scalar. -/
def orderScalar : Scalar := .ofNat order

/-- The coefficients and the cofactor. -/
def coefficientA : Nat := 0
def coefficientB : Nat := 7
def cofactor : Nat := 1

/-- The number of octets of a coordinate. -/
def coordinateSize : Nat := 32

/-- The coordinates of the base point. -/
def generatorCoordinates : Bytes × Bytes :=
  match generator with
  | .infinity   => ([], [])
  | .affine x y =>
    (BigEndian.encode coordinateSize x.val, BigEndian.encode coordinateSize y.val)

/-- The base point in uncompressed form. -/
def encodedGenerator : Bytes := 0x04 :: (generatorCoordinates.1 ++ generatorCoordinates.2)

/-- The base point in compressed form; its second coordinate is even. -/
def compressedGenerator : Bytes := 0x02 :: generatorCoordinates.1

/-- The content octets of a number: as few as keep the sign bit clear. -/
def unsignedContent (n : Nat) : Bytes := BigEndian.encode ((n.log2 + 1) / 8 + 1) n

/-- The object identifier of prime fields, 1.2.840.10045.1.1. -/
def primeFieldId : Bytes := [0x2a, 0x86, 0x48, 0xce, 0x3d, 0x01, 0x01]

open Asn1 in
/-- Version, field, coefficients, base point, order and cofactor, in distinguished encoding. -/
def encodedParameters : Bytes :=
  Der.sequence
    [Der.primitive .integer (unsignedContent 1),
     Der.sequence
       [Der.primitive .objectId primeFieldId, Der.primitive .integer (unsignedContent prime)],
     Der.sequence
       [Der.primitive .octetString (BigEndian.encode coordinateSize coefficientA),
        Der.primitive .octetString (BigEndian.encode coordinateSize coefficientB)],
     Der.primitive .octetString encodedGenerator,
     Der.primitive .integer (unsignedContent order),
     Der.primitive .integer (unsignedContent cofactor)]

/-- What setting up the curve reports, if it took the given number of microseconds. -/
def readyNotes (microseconds : Nat) : List Note :=
  [.debug .curve "Curve/Parameters.lean" 1
     (Bytes.ascii "secp256k1 ready: order " ++ Decimal.ofNat orderScalar.bitLength
       ++ Bytes.ascii " bits, ECParameters " ++ Decimal.ofNat encodedParameters.length
       ++ Bytes.ascii " bytes"),
   .elapsed .debug Category.curve.name (Bytes.ascii "secp256k1 initialisation") microseconds]

end CurveKeys.Curve
