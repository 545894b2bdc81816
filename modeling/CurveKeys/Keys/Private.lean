import CurveKeys.Keys.Public

/-!
# Keys — private keys

A private key is a scalar between 1 and the order of the curve, exclusive. A policy may refuse the
scalar 1 as well.
-/

namespace CurveKeys

/-- What is refused beyond what a private key must be. -/
structure Policy where
  rejectOne : Bool := false
  deriving DecidableEq, Repr

namespace Policy

/-- Nothing beyond the range. -/
def lenient : Policy := ⟨false⟩

/-- The scalar 1 is refused. -/
def strict : Policy := ⟨true⟩

end Policy

/-- A scalar in the range of private keys. -/
structure PrivateKey where
  scalar : Scalar
  not_zero : scalar.isZero = false
  below_order : scalar < Curve.orderScalar
  deriving DecidableEq

namespace PrivateKey

/-- The length of a private key in octets. -/
def size : Nat := 32

/-- The private key of a scalar; zero is refused first, then one, then what is too large. -/
def parse (d : Scalar) (policy : Policy) : Except InvalidKey PrivateKey :=
  if hz : d.isZero = true then .error .scalarZero
  else if policy.rejectOne && d.isOne then .error .scalarOne
  else if hb : d < Curve.orderScalar then .ok ⟨d, by simpa using hz, hb⟩
  else .error .scalarNotBelowOrder

/-- The private key of a scalar; a refusal is reported. -/
def ofScalar (d : Scalar) (policy : Policy) : Traced KeyError PrivateKey :=
  match parse d policy with
  | .ok k        => pure k
  | .error cause => cause.refusePrivate

/-- Exactly 32 octets, most significant first. -/
def toBytes (k : PrivateKey) : Bytes := k.scalar.encode size

def toHex (k : PrivateKey) : Bytes := Hex.encode k.toBytes

@[simp] theorem length_toBytes (k : PrivateKey) : k.toBytes.length = 32 := Scalar.length_encode _ _

end PrivateKey

end CurveKeys
