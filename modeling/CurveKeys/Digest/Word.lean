import CurveKeys.Bytes.Basic

/-!
# Digest — 32-bit words

Words as four octets in either byte order, and rotations.
-/

namespace CurveKeys.Word

/-- `x` rotated left by `n` bits, `0 < n < 32`. -/
def rotateLeft (x n : UInt32) : UInt32 := x <<< n ||| x >>> (32 - n)

/-- `x` rotated right by `n` bits, `0 < n < 32`. -/
def rotateRight (x n : UInt32) : UInt32 := x >>> n ||| x <<< (32 - n)

/-- Four octets, most significant first. -/
def bigEndian (w : UInt32) : Bytes :=
  [(w >>> 24).toUInt8, (w >>> 16).toUInt8, (w >>> 8).toUInt8, w.toUInt8]

/-- Four octets, least significant first. -/
def littleEndian (w : UInt32) : Bytes :=
  [w.toUInt8, (w >>> 8).toUInt8, (w >>> 16).toUInt8, (w >>> 24).toUInt8]

/-- The words of a string whose octets come most significant first. -/
def ofBigEndian : Bytes → List UInt32
  | a :: b :: c :: d :: rest =>
    (a.toUInt32 <<< 24 ||| b.toUInt32 <<< 16 ||| c.toUInt32 <<< 8 ||| d.toUInt32)
      :: ofBigEndian rest
  | _ => []

/-- The words of a string whose octets come least significant first. -/
def ofLittleEndian : Bytes → List UInt32
  | a :: b :: c :: d :: rest =>
    (d.toUInt32 <<< 24 ||| c.toUInt32 <<< 16 ||| b.toUInt32 <<< 8 ||| a.toUInt32)
      :: ofLittleEndian rest
  | _ => []

end CurveKeys.Word
