import CurveKeys.Bytes.BigEndian
import CurveKeys.Bytes.Hex
import CurveKeys.Journal.Traced

/-!
# ErrorQueue — queued errors

A routine that fails, of the arithmetic or of the encodings, leaves error codes in a queue, each a
number for the library and one for the reason. The queue keeps the last fifteen. Raising a failure
empties it into one message.

* `ErrorQueue.raise`: the failure of an operation, with the codes found in the queue.
-/

namespace CurveKeys

/-- An error code: which library it comes from, and why. -/
structure QueuedError where
  library : Nat
  reason : Nat
  deriving DecidableEq, Repr

namespace QueuedError

/-- The code in one number: eight bits for the library above 23 for the reason. -/
def code (e : QueuedError) : Nat := e.library % 0x100 * 0x800000 + e.reason % 0x800000

/-- The reasons that are the same in all libraries, and what they are called. -/
def commonReasons : List (Nat × String) :=
  [(0x80002, "system lib"), (0x80003, "BN lib"), (0x80004, "RSA lib"), (0x80005, "DH lib"),
   (0x80006, "EVP lib"), (0x80007, "BUF lib"), (0x80008, "OBJ lib"), (0x80009, "PEM lib"),
   (0x8000a, "DSA lib"), (0x8000b, "X509 lib"), (0x8000d, "ASN1 lib"), (0x8000f, "CRYPTO lib"),
   (0x80010, "EC lib"), (0x80020, "BIO lib"), (0x80021, "PKCS7 lib"), (0x80022, "X509V3 lib"),
   (0x80026, "ENGINE lib"), (0x80028, "UI lib"), (0x8002a, "ECDSA lib"),
   (0x8002c, "OSSL_STORE lib"), (0x8003c, "OSSL_DECODER lib"),
   (0x80106, "passed invalid argument"), (0x80109, "interrupted or cancelled"),
   (0x8010a, "nested asn1 error"), (0x8010b, "missing asn1 eos"), (0x8010c, "unsupported"),
   (0x8010d, "fetch failed"), (0x8010e, "invalid property definition"), (0xc0000, "fatal"),
   (0xc0100, "malloc failure"), (0xc0101, "called a function you should not call"),
   (0xc0102, "passed a null parameter"), (0xc0103, "internal error"),
   (0xc0104, "called a function that was disabled at compile-time"), (0xc0105, "init fail"),
   (0xc0107, "operation fail"), (0xc0108, "invalid provider functions"),
   (0xc010f, "unable to get read lock"), (0xc0110, "unable to get write lock")]

/-- The libraries whose routines can fail here: what they are called, and the reasons of their
own. -/
def libraries : List (Nat × String × List (Nat × String)) :=
  [(0x03, "bignum routines", [(0x67, "div by zero"), (0x72, "bignum too long")]),
   (0x0d, "asn1 encoding routines", [(0xdf, "too large")])]

/-- A division by zero. -/
def divisionByZero : QueuedError := ⟨0x03, 0x67⟩

/-- A number of too many octets. -/
def numberTooLong : QueuedError := ⟨0x03, 0x72⟩

/-- A string of too many octets. -/
def stringTooLarge : QueuedError := ⟨0x0d, 0xdf⟩

/-- The library in words if it is known, as a number otherwise. -/
def libraryText (e : QueuedError) : Bytes :=
  match libraries.lookup (e.library % 0x100) with
  | some (words, _) => Bytes.ascii words
  | none            => Bytes.ascii "lib(" ++ Decimal.ofNat (e.library % 0x100) ++ Bytes.ascii ")"

/-- The reason in words if it is one of the library or if all libraries share it, as a number
otherwise. -/
def reasonText (e : QueuedError) : Bytes :=
  let reasons := ((libraries.lookup (e.library % 0x100)).elim [] Prod.snd) ++ commonReasons
  match reasons.lookup (e.reason % 0x800000) with
  | some words => Bytes.ascii words
  | none       =>
    Bytes.ascii "reason(" ++ Decimal.ofNat (e.reason % 0x800000) ++ Bytes.ascii ")"

/-- The code in hexadecimal, and its parts. -/
def text (e : QueuedError) : Bytes :=
  Bytes.ascii "error:" ++ Text.upper (Hex.encode (BigEndian.encode 4 e.code))
    ++ Bytes.ascii ":" ++ e.libraryText ++ Bytes.ascii "::" ++ e.reasonText

end QueuedError

/-- The failure of an operation, with the errors found in the queue, oldest first. -/
structure QueuedFailure where
  operation : Bytes
  errors : List QueuedError
  deriving DecidableEq, Repr

/-- The operation and all errors in the order in which they were queued. -/
def QueuedFailure.message (f : QueuedFailure) : Bytes :=
  f.operation ++ Bytes.ascii " failed: " ++
    if f.errors.isEmpty then Bytes.ascii "no OpenSSL error queued"
    else (Bytes.ascii "; ").intercalate (f.errors.map QueuedError.text)

namespace ErrorQueue

/-- How many errors the queue holds. -/
def capacity : Nat := 15

/-- The queue after errors were put in; the oldest give way. -/
def ofErrors (errors : List QueuedError) : List QueuedError :=
  errors.drop (errors.length - capacity)

/-- The errors taken out, oldest first, and the queue after. A code of zero looks like the end of
the queue: it is taken out, and the errors behind it stay. -/
def drain (queue : List QueuedError) : List QueuedError × List QueuedError :=
  let errors := queue.takeWhile (·.code != 0)
  (errors, queue.drop (errors.length + 1))

/-- Whether the queue looks empty. -/
def looksEmpty (queue : List QueuedError) : Bool := queue.head?.all (·.code == 0)

/-- Fails with what can be taken out of the queue after errors were put in, and reports it. -/
def raise {α : Type} (category operation : Bytes) (errors : List QueuedError) :
    Traced QueuedFailure α :=
  let failure : QueuedFailure := ⟨operation, (drain (ofErrors errors)).1⟩
  .fail failure ⟨.error, category, failure.message, Bytes.ascii "ErrorQueue.lean", 1⟩

end ErrorQueue

end CurveKeys
