import CurveKeys.ErrorQueue

/-!
# Keys — why there is no key

Four kinds of failure are those of a key: it breaks a rule, its point encoding exists but is not
supported, its record is not well formed, or the two keys of a record do not belong together. In a
fifth kind no key is to blame: a routine of the arithmetic or of the encodings failed. Each cause
has one text.
-/

namespace CurveKeys

/-- Which rule a private or public key breaks. -/
inductive InvalidKey where
  | scalarRequired
  | scalarZero
  | scalarOne
  | scalarNotBelowOrder
  | multipleOfOrder
  | emptyPoint
  | compressedLength (length : Nat)
  | uncompressedLength (length : Nat)
  | unknownTag (tag : UInt8)
  | notOnCurve
  deriving DecidableEq, Repr

/-- The two explicitly tagged elements of a record. -/
inductive RecordPart where
  | parameters
  | publicKey
  deriving DecidableEq, Repr

/-- What is wrong with the form of a record. -/
inductive Malformed where
  | empty
  | notSequence
  | trailing (count : Nat)
  | elementCount (count : Nat)
  | versionNotInteger
  | unsupportedVersion
  | privateNotOctetString
  | privateLength (length : Nat)
  | notTagged (part : RecordPart)
  | badHeader (part : RecordPart)
  | notContextSpecific (part : RecordPart)
  | wrongTag (part : RecordPart) (tag expected : Nat)
  | notConstructed (part : RecordPart)
  | inconsistentLength (part : RecordPart)
  | notBitString
  | afterBitString
  | unusedBits
  | publicLength (length : Nat)
  deriving DecidableEq, Repr

/-- Where a point encoding was found. -/
inductive EncodingPlace where
  | point
  | record
  deriving DecidableEq, Repr

/-- Why there is no key. -/
inductive KeyError where
  | invalidKey (cause : InvalidKey)
  | unsupportedEncoding (place : EncodingPlace) (tag : UInt8)
  | malformedRecord (cause : Malformed)
  | keyMismatch
  | failed (failure : QueuedFailure)
  deriving DecidableEq, Repr

open Bytes (ascii)
open Decimal (ofNat)

/-- A tag octet as it is shown. -/
def shownTag (tag : UInt8) : Bytes := ascii "0x" ++ Hex.encode [tag]

namespace InvalidKey

def message : InvalidKey → Bytes
  | scalarRequired       => ascii "private key scalar is required"
  | scalarZero           => ascii "private key scalar is zero"
  | scalarOne            => ascii "private key scalar is one"
  | scalarNotBelowOrder  => ascii "private key scalar is not below the curve order"
  | multipleOfOrder      => ascii "scalar is a multiple of the curve order"
  | emptyPoint           => ascii "empty public key"
  | compressedLength n   => ascii "compressed public key must be 33 bytes, got " ++ ofNat n
  | uncompressedLength n => ascii "uncompressed public key must be 65 bytes, got " ++ ofNat n
  | unknownTag tag       => ascii "unknown point encoding tag " ++ shownTag tag
  | notOnCurve           => ascii "public key is not a point on secp256k1"

end InvalidKey

namespace RecordPart

def name : RecordPart → Bytes
  | parameters => ascii "parameters"
  | publicKey  => ascii "public key"

/-- The number of its explicit tag. -/
def tag : RecordPart → Nat
  | parameters => 0
  | publicKey  => 1

end RecordPart

namespace Malformed

/-- What is wrong, without the words that say it is a record. -/
def reason : Malformed → Bytes
  | empty                   => ascii "empty input"
  | notSequence             => ascii "not a DER SEQUENCE"
  | trailing n              => ofNat n ++ ascii " trailing byte(s) after SEQUENCE"
  | elementCount n          => ascii "expected 4 elements, got " ++ ofNat n
  | versionNotInteger       => ascii "version is not an INTEGER"
  | unsupportedVersion      => ascii "unsupported version"
  | privateNotOctetString   => ascii "private key is not an OCTET STRING"
  | privateLength n         => ascii "private key length " ++ ofNat n ++ ascii " out of range"
  | notTagged part          => part.name ++ ascii " is not a context-tagged element"
  | badHeader part          => part.name ++ ascii " has an invalid header"
  | notContextSpecific part => part.name ++ ascii " is not context-specific"
  | wrongTag part tag expected =>
    part.name ++ ascii " has tag [" ++ ofNat tag ++ ascii "], expected [" ++ ofNat expected
      ++ ascii "]"
  | notConstructed part     => part.name ++ ascii " is not an explicit (constructed) tag"
  | inconsistentLength part => part.name ++ ascii " has an inconsistent length"
  | notBitString            => ascii "public key is not a BIT STRING"
  | afterBitString          => ascii "trailing data after public key BIT STRING"
  | unusedBits              => ascii "public key BIT STRING has unused bits"
  | publicLength n          =>
    ascii "public key length " ++ ofNat n ++ ascii " is neither 33 nor 65"

end Malformed

namespace KeyError

def message : KeyError → Bytes
  | invalidKey cause               => cause.message
  | unsupportedEncoding .point tag => ascii "unsupported point encoding tag " ++ shownTag tag
  | unsupportedEncoding .record tag =>
    ascii "unsupported public key encoding tag " ++ shownTag tag
  | malformedRecord cause          => ascii "malformed EC private key record: " ++ cause.reason
  | keyMismatch                    => ascii "public key in record does not match private key"
  | failed failure                 => failure.message

end KeyError

/-- Refuses a private key, and reports it. -/
def InvalidKey.refusePrivate {α : Type} (cause : InvalidKey) : Traced KeyError α :=
  .fail (.invalidKey cause)
    (.debug .keys "Keys/Error.lean" 1 (ascii "Rejected private key: " ++ cause.message))

end CurveKeys
