import CurveKeys.Bytes.Hex
import CurveKeys.Digest.Ripemd160
import CurveKeys.Digest.Sha256

/-!
# Digest — digest values

A digest is an octet string of a fixed length. It is shown in hexadecimal in the order in which its
octets are stored.

* `Digest.ofBytes`, `Digest.ofHex`: refuse any other length.
* `sha256`, `ripemd160`, `hash160`: the digests of a message; the last is the second of the first.
-/

namespace CurveKeys

/-- An octet string of length `size`. -/
structure Digest (size : Nat) where
  octets : Bytes
  length_eq : octets.length = size
  deriving DecidableEq

/-- Why there is no digest value. -/
inductive Digest.Error where
  | notHex (cause : Hex.Error)
  | lengthMismatch
  deriving DecidableEq, Repr

namespace Digest

def Error.message : Error → Bytes
  | notHex cause   => cause.message
  | lengthMismatch => Bytes.ascii "hash length mismatch"

/-- All zeros. -/
def zero (size : Nat) : Digest size := ⟨List.replicate size 0, by simp⟩

def ofBytes (size : Nat) (b : Bytes) : Except Error (Digest size) :=
  if h : b.length = size then .ok ⟨b, h⟩ else .error .lengthMismatch

def ofHex (size : Nat) (text : Bytes) : Except Error (Digest size) :=
  match Hex.decode text with
  | .ok b    => ofBytes size b
  | .error e => .error (.notHex e)

def isZero {size : Nat} (d : Digest size) : Bool := d.octets.all (· == 0)

def toHex {size : Nat} (d : Digest size) : Bytes := Hex.encode d.octets

end Digest

/-- The SHA-256 digest of a message. -/
def sha256 (message : Bytes) : Digest 32 := ⟨Sha256.hash.digest message, Sha256.length_output _⟩

/-- The RIPEMD-160 digest of a message. -/
def ripemd160 (message : Bytes) : Digest 20 :=
  ⟨Ripemd160.hash.digest message, Ripemd160.length_output _⟩

/-- The RIPEMD-160 digest of the SHA-256 digest. -/
def hash160 (message : Bytes) : Digest 20 := ripemd160 (sha256 message).octets

end CurveKeys
