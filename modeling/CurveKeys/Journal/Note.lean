import CurveKeys.Bytes.Decimal
import CurveKeys.Journal.Level

/-!
# Journal — notes

A note is what an operation has to report while it runs. Whether anybody sees it is not the
operation's business: notes are part of its outcome, and a journal decides later which of them it
writes.
-/

namespace CurveKeys

/-- The parts of the program that report under a name of their own. -/
inductive Category where
  | general
  | curve
  | keys
  | asn1
  | hash
  | tool
  deriving DecidableEq, Repr

namespace Category

/-- The name a category is configured and printed by. -/
def name : Category → Bytes
  | general => Bytes.ascii "default"
  | curve   => Bytes.ascii "curve"
  | keys    => Bytes.ascii "keys"
  | asn1    => Bytes.ascii "asn1"
  | hash    => Bytes.ascii "hash"
  | tool    => Bytes.ascii "tool"

/-- All categories, in the order in which they are listed. -/
def all : List Category := [general, curve, keys, asn1, hash, tool]

end Category

/-- A message, how severe it is, which part of the program it comes from, and the place there. -/
structure Note where
  level : Level
  category : Bytes
  message : Bytes
  file : Bytes
  line : Int
  deriving DecidableEq

namespace Note

/-- A note of one of the categories, from a numbered place of a file. -/
def ofPlace (level : Level) (category : Category) (file : String) (line : Nat) (message : Bytes) :
    Note :=
  ⟨level, category.name, message, Bytes.ascii file, line⟩

/-- A debugging note. -/
def debug (category : Category) (file : String) (line : Nat) (message : Bytes) : Note :=
  ofPlace .debug category file line message

/-- A warning. -/
def warn (category : Category) (file : String) (line : Nat) (message : Bytes) : Note :=
  ofPlace .warn category file line message

/-- A report that something went wrong. -/
def error (category : Category) (file : String) (line : Nat) (message : Bytes) : Note :=
  ofPlace .error category file line message

/-- How many microseconds an operation took; such a note comes from no place. -/
def elapsed (level : Level) (category operation : Bytes) (microseconds : Nat) : Note :=
  ⟨level, category,
    operation ++ Bytes.ascii " took " ++ Decimal.ofNat microseconds ++ Bytes.ascii "us", [], 0⟩

/-- The part of a formatted message that is kept: what stands before the first zero octet, and of
that at most 4095 octets. -/
def formatted (message : Bytes) : Bytes := (Bytes.upToNul message).take 4095

end Note

end CurveKeys
