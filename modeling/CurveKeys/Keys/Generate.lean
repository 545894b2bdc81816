import CurveKeys.Entropy
import CurveKeys.Keys.Pair

/-!
# Keys — generation

A fresh key comes from the first draw of 32 octets whose value is in the range of private keys. A
draw outside it is dropped, never reduced, so that all keys are equally likely; after 64 such draws
the source is given up.
-/

namespace CurveKeys

/-- Why no key was generated. -/
inductive GenerateError where
  | noEntropy (cause : Entropy.Error)
  | exhausted
  | refused (cause : KeyError)
  deriving DecidableEq, Repr

def GenerateError.message : GenerateError → Bytes
  | noEntropy cause => cause.message
  | exhausted       => Bytes.ascii "key generation failed: entropy source exhausted"
  | refused cause   => cause.message

namespace KeyPair

/-- The number of draws after which a source is given up. -/
def maxDraws : Nat := 64

/-- The scalar of a draw, if it is in the range of private keys. -/
def candidate? (draw : Bytes) : Option Scalar :=
  let d := Scalar.ofBytes draw
  if d.isZero = false ∧ d < Curve.orderScalar then some d else none

/-- The pair of an accepted scalar, in compressed form. -/
def ofCandidate (d : Scalar) : Traced KeyError KeyPair := do
  let privateKey ← PrivateKey.ofScalar d .lenient
  let publicKey ← PublicKey.derive privateKey.scalar
  pure ⟨privateKey, publicKey.withCompression true⟩

def generatedNote (draws : Nat) : Note :=
  .debug .keys "Keys/Generate.lean" 1
    (Bytes.ascii "Generated key pair after " ++ Decimal.ofNat draws ++ Bytes.ascii " draw(s)")

def exhaustedNote : Note :=
  .error .keys "Keys/Generate.lean" 2
    (Bytes.ascii "Entropy source produced no valid scalar in " ++ Decimal.ofNat maxDraws
      ++ Bytes.ascii " attempts")

variable {σ : Type}

/-- Draws until a candidate is accepted, `left` more times at most; `drawn` draws were dropped. -/
def generateWithin (source : Entropy.Source σ) :
    (left drawn : Nat) → σ → Traced GenerateError KeyPair × σ
  | 0,        _,     s => (.fail .exhausted exhaustedNote, s)
  | left + 1, drawn, s =>
    match source.draw PrivateKey.size s with
    | (.error e,    s) => (.ofExcept (.error (.noEntropy e)), s)
    | (.ok octets, s) =>
      match candidate? octets with
      | none   => generateWithin source left (drawn + 1) s
      | some d =>
        ((do
          let k ← (ofCandidate d).mapError .refused
          Traced.report (generatedNote (drawn + 1))
          pure k), s)

/-- A fresh pair from a source, in compressed form. -/
def generate (source : Entropy.Source σ) (s : σ) : Traced GenerateError KeyPair × σ :=
  generateWithin source maxDraws 0 s

end KeyPair

end CurveKeys
