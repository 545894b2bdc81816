import CurveKeys.Asn1.Der
import CurveKeys.Keys.Pair

/-!
# Record — private key records

A record carries a key pair as a sequence of four elements: the version 1, the private key in
octets, the parameters of the curve under the explicit tag [0], and the public key as a bit string
under the explicit tag [1].

* `KeyPair.toRecord`: the record of a pair, in distinguished encoding.
* `KeyPair.writeRecord`: the same record from the routines that write it, which refuse what takes
  too many octets.
* `Record.parse`: the parts of a record, whatever they are worth as keys.
* `KeyPair.ofRecord`: the pair of a record. The private key is taken modulo the order of the curve,
  the parameters are not looked at, and the public key must be the one that is derived.
-/

namespace CurveKeys

namespace Record

open Asn1

/-- The parts of a record. -/
structure Parts where
  privateOctets : Bytes
  parameters : Bytes
  publicOctets : Bytes
  deriving DecidableEq

/-- The record with given parts, in distinguished encoding. -/
def encode (parts : Parts) : Bytes :=
  Der.sequence
    [Der.primitive .integer [1],
     Der.primitive .octetString parts.privateOctets,
     Der.explicit RecordPart.parameters.tag parts.parameters,
     Der.explicit RecordPart.publicKey.tag (Der.bitString parts.publicOctets)]

/-- No value is written that takes as many octets as this: their number is a signed number of 32
bits, and less than the greatest of them. -/
def sizeLimit : Nat := 2147483647

/-- Writes an encoded value inside an explicit context tag. (The value is taken to be shorter than
`2 ^ 32` octets.) -/
def wrapExplicit (tag : Nat) (inner : Bytes) : Traced QueuedFailure Bytes :=
  if (Der.explicit tag inner).length < sizeLimit then pure (Der.explicit tag inner)
  else ErrorQueue.raise Category.asn1.name (Bytes.ascii "ASN1_object_size") []

/-- The octets that are stored of a string. Their number goes through a signed number of 32 bits,
and where that is negative it is the first zero octet that ends the string. -/
def stored (b : Bytes) : Bytes :=
  let told := b.length % 4294967296
  if told < 2147483648 then b.take told else Bytes.upToNul b

/-- Writes a bit string of whole octets. -/
def encodeBitString (bits : Bytes) : Traced QueuedFailure Bytes :=
  let bits := stored bits
  if sizeLimit ≤ bits.length then
    ErrorQueue.raise Category.asn1.name (Bytes.ascii "ASN1_BIT_STRING_set") [.stringTooLarge]
  else if (Der.bitString bits).length < sizeLimit then pure (Der.bitString bits)
  else ErrorQueue.raise Category.asn1.name (Bytes.ascii "i2d_ASN1_BIT_STRING") []

/-- The content of an explicitly tagged element. -/
def openExplicit (part : RecordPart) (expected : Nat) : Element → Except Malformed Bytes
  | .tagged encoding =>
    match Header.read? encoding with
    | none => .error (.badHeader part)
    | some (header, body) =>
      if header.tagClass ≠ .contextSpecific then .error (.notContextSpecific part)
      else if header.tag ≠ expected then .error (.wrongTag part header.tag expected)
      else if !header.constructed then .error (.notConstructed part)
      else if header.length ≠ some body.length then .error (.inconsistentLength part)
      else .ok body
  | _ => .error (.notTagged part)

/-- The octets of a bit string that fills the given content. -/
def openBitString (content : Bytes) : Except Malformed Bytes :=
  match readBitString content with
  | none                  => .error .notBitString
  | some (_, _ :: _)      => .error .afterBitString
  | some ([], [])         => .error .notBitString
  | some (unused :: b, []) => if unused = 0 then .ok b else .error .unusedBits

/-- The private key octets of the second element. -/
def privateOctets : Element → Except Malformed Bytes
  | .universal tag b =>
    if tag ≠ Tag.octetString.number then .error .privateNotOctetString
    else if b.length < 1 ∨ PrivateKey.size < b.length then .error (.privateLength b.length)
    else .ok b
  | _ => .error .privateNotOctetString

/-- Checks the version in the first element. -/
def checkVersion : Element → Except Malformed Unit
  | .universal tag b =>
    if tag ≠ Tag.integer.number then .error .versionNotInteger
    else if b ≠ [1] then .error .unsupportedVersion
    else .ok ()
  | _ => .error .versionNotInteger

/-- The parts of a record; of several faults the first in the order of the record counts. -/
def parse (r : Bytes) : Except Malformed Parts :=
  if r.isEmpty then .error .empty
  else
    match readSequence r with
    | none => .error .notSequence
    | some (elements, after) =>
      if !after.isEmpty then .error (.trailing after.length)
      else
        match elements with
        | [version, secret, parameters, bits] => do
          checkVersion version
          let privateOctets ← privateOctets secret
          let parameters ← openExplicit .parameters RecordPart.parameters.tag parameters
          let content ← openExplicit .publicKey RecordPart.publicKey.tag bits
          let publicOctets ← openBitString content
          if publicOctets.length ≠ PublicKey.compressedSize
              ∧ publicOctets.length ≠ PublicKey.uncompressedSize then
            throw (.publicLength publicOctets.length)
          pure ⟨privateOctets, parameters, publicOctets⟩
        | _ => .error (.elementCount elements.length)

/-- Whether a public key begins with a supported tag; there is none in front of nothing. -/
def supportedTag? : Bytes → Option UInt8
  | []       => none
  | tag :: _ => if tag = 0x02 ∨ tag = 0x03 ∨ tag = 0x04 then none else some tag

def malformedNote (cause : Malformed) : Note :=
  .debug .asn1 "Record.lean" 1
    (Bytes.ascii "Malformed EC private key record: " ++ cause.reason)

def unsupportedNote (tag : UInt8) : Note :=
  .debug .asn1 "Record.lean" 2
    (Bytes.ascii "Unsupported public key encoding tag " ++ shownTag tag)

def mismatchNote (found : Bytes) (derived : PublicKey) : Note :=
  .debug .asn1 "Record.lean" 3
    (Bytes.ascii "Record public key " ++ Hex.encode found ++ Bytes.ascii " differs from derived "
      ++ derived.toHex)

def encodedNote (length : Nat) (compressed : Bool) : Note :=
  .debug .asn1 "Record.lean" 4
    (Bytes.ascii "Encoded EC private key record (" ++ Decimal.ofNat length
      ++ Bytes.ascii (if compressed then " bytes, compressed)" else " bytes, uncompressed)"))

/-- The pair of well-formed parts. -/
def Parts.toPair (parts : Parts) (policy : Policy) : Traced KeyError KeyPair :=
  match supportedTag? parts.publicOctets with
  | some tag => .fail (.unsupportedEncoding .record tag) (unsupportedNote tag)
  | none => do
    let k ← KeyPair.ofBytes parts.privateOctets
      (parts.publicOctets.length = PublicKey.compressedSize) policy
    if k.publicKey.encode = parts.publicOctets then pure k
    else .fail .keyMismatch (mismatchNote parts.publicOctets k.publicKey)

end Record

namespace KeyPair

/-- The record of a pair. -/
def toRecord (k : KeyPair) : Bytes :=
  Record.encode ⟨k.privateKey.toBytes, Curve.encodedParameters, k.publicKey.encode⟩

/-- The elements of the record of a pair, as they are written one after the other. -/
def writeElements (k : KeyPair) : Traced QueuedFailure (List Bytes) := do
  let parameters ← Record.wrapExplicit RecordPart.parameters.tag Curve.encodedParameters
  let bits ← Record.encodeBitString k.publicKey.encode
  let publicKey ← Record.wrapExplicit RecordPart.publicKey.tag bits
  pure [Asn1.Der.primitive .integer [1], Asn1.Der.primitive .octetString k.privateKey.toBytes,
    parameters, publicKey]

/-- Writes the record of a pair, which is reported. -/
def writeRecord (k : KeyPair) : Traced KeyError Bytes := do
  let elements ← k.writeElements.mapError .failed
  let record := Asn1.Der.sequence elements
  Traced.report (Record.encodedNote record.length k.isCompressed)
  pure record

/-- The pair of a record. -/
def ofRecord (r : Bytes) (policy : Policy) : Traced KeyError KeyPair :=
  match Record.parse r with
  | .ok parts    => parts.toPair policy
  | .error cause => .fail (.malformedRecord cause) (Record.malformedNote cause)

end KeyPair

end CurveKeys
