import CurveKeys.Keys.Private

/-!
# Keys — key pairs

A private key with the public key derived from it. Scalars of any size are taken modulo the order of
the curve before they are held against the rules for private keys.
-/

namespace CurveKeys

/-- A private key and its public key. -/
structure KeyPair where
  privateKey : PrivateKey
  publicKey : PublicKey
  deriving DecidableEq

namespace KeyPair

/-- The remainder of a scalar by the order of the curve. -/
def reduce (d : Scalar) : Traced KeyError Scalar :=
  if d < Curve.orderScalar then pure d else (d.remainder Curve.orderScalar).mapError .failed

/-- The pair of a scalar in the given form; there is none without a scalar. -/
def ofScalar (d : Option Scalar) (compressed : Bool) (policy : Policy) :
    Traced KeyError KeyPair := do
  match d with
  | none   => InvalidKey.refusePrivate .scalarRequired
  | some d =>
    let d ← reduce d
    let privateKey ← PrivateKey.ofScalar d policy
    let publicKey ← PublicKey.derive privateKey.scalar
    pure ⟨privateKey, publicKey.withCompression compressed⟩

/-- The pair of the scalar an octet string denotes. -/
def ofBytes (b : Bytes) (compressed : Bool) (policy : Policy) : Traced KeyError KeyPair :=
  ofScalar (some (.ofBytes b)) compressed policy

def isCompressed (k : KeyPair) : Bool := k.publicKey.compressed

end KeyPair

end CurveKeys
