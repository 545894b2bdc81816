import CurveKeys.Keys.Generate
import CurveKeys.Record
import CurveKeys.Tool.Usage

/-!
# Tool — commands

A command takes at most one argument, in hexadecimal, and gives the text to print. It fails as a
whole: a command that fails prints nothing.

* `Command.ofName?`: the command of a name.
* `Command.run`: what a command prints.
-/

namespace CurveKeys.Tool

/-- The commands. -/
inductive Command where
  | generate
  | derive
  | exportRecord
  | importRecord
  | hash160
  | compress
  | decompress
  | help
  deriving DecidableEq, Repr

/-- What an argument is expected to be. -/
inductive ArgumentKind where
  | privateKey
  | record
  | publicKey
  deriving DecidableEq, Repr

def ArgumentKind.name : ArgumentKind → Bytes
  | privateKey => Bytes.ascii "private key"
  | record     => Bytes.ascii "record"
  | publicKey  => Bytes.ascii "public key"

/-- Why a command fails: its argument, the keys, or something that no argument can be blamed for. -/
inductive Failure where
  | missing (kind : ArgumentKind)
  | notHex (kind : ArgumentKind) (argument : Bytes)
  | key (cause : KeyError)
  | internal (message : Bytes)
  deriving DecidableEq, Repr

namespace Command

/-- The command of a name. -/
def ofName? (name : Bytes) : Option Command :=
  ([("generate", generate), ("derive", derive), ("export", exportRecord),
    ("import", importRecord), ("hash160", Command.hash160), ("compress", compress),
    ("decompress", decompress), ("help", help)].map
      fun (s, c) => (Bytes.ascii s, c)).lookup name

end Command

/-- A label of twelve columns and a value. -/
def row (label : String) (value : Bytes) : Bytes := Bytes.ascii label ++ value ++ [Text.newline]

/-- The four rows of a key pair. -/
def pairText (k : KeyPair) : Bytes :=
  row "private:    " k.privateKey.toHex
    ++ row "public:     " k.publicKey.toHex
    ++ row "compressed: " (Bytes.ascii (if k.isCompressed then "yes" else "no"))
    ++ row "hash160:    " k.publicKey.digest.toHex

/-- The octets of the first argument after the command. It is checked before it is read, so a fault
in reading it would be nobody's but the program's. -/
def hexArgument (kind : ArgumentKind) (arguments : List Bytes) : Except Failure Bytes :=
  match arguments with
  | []            => .error (.missing kind)
  | argument :: _ =>
    if Hex.isValid argument then (Hex.decode argument).mapError fun e => .internal e.message
    else .error (.notHex kind argument)

/-- How a failure of the keys counts: it is the program's where a routine failed. -/
def ofKeyError : KeyError → Failure
  | .failed failure => .internal failure.message
  | cause           => .key cause

/-- How a failed generation counts. -/
def ofGenerateError : GenerateError → Failure
  | .refused cause => ofKeyError cause
  | e              => .internal e.message

/-- The pair whose private key is the argument. -/
def argumentPair (arguments : List Bytes) (compressed : Bool) (policy : Policy) :
    Traced Failure KeyPair := do
  let b ← Traced.ofExcept (hexArgument .privateKey arguments)
  (KeyPair.ofBytes b compressed policy).mapError ofKeyError

/-- The public key in the argument. -/
def argumentKey (arguments : List Bytes) : Traced Failure PublicKey := do
  let b ← Traced.ofExcept (hexArgument .publicKey arguments)
  (PublicKey.decode b).mapError ofKeyError

/-- A generated pair, in the form asked for, and its record. -/
def generatedText (k : KeyPair) (compressed : Bool) : Traced Failure Bytes := do
  let k ←
    if compressed then pure k
    else (KeyPair.ofScalar (some k.privateKey.scalar) false .lenient).mapError ofKeyError
  let record ← k.writeRecord.mapError ofKeyError
  pure (pairText k ++ row "record:     " (Hex.encode record))

variable {σ : Type}

/-- What a command prints, given the arguments after it. -/
def Command.run (c : Command) (arguments : List Bytes) (compressed : Bool) (policy : Policy)
    (source : Entropy.Source σ) (s : σ) : Traced Failure Bytes :=
  match c with
  | generate => do
    let k ← (KeyPair.generate source s).1.mapError ofGenerateError
    generatedText k compressed
  | derive => do
    let k ← argumentPair arguments compressed policy
    pure (pairText k)
  | exportRecord => do
    let k ← argumentPair arguments compressed policy
    let record ← k.writeRecord.mapError ofKeyError
    pure (row "" (Hex.encode record))
  | importRecord => do
    let b ← Traced.ofExcept (hexArgument .record arguments)
    let k ← (KeyPair.ofRecord b policy).mapError ofKeyError
    pure (pairText k)
  | Command.hash160 => do
    let k ← argumentKey arguments
    pure (row "" k.digest.toHex)
  | compress => do
    let k ← argumentKey arguments
    pure (row "" (k.withCompression true).toHex)
  | decompress => do
    let k ← argumentKey arguments
    pure (row "" (k.withCompression false).toHex)
  | help => pure usageText

end CurveKeys.Tool
