import CurveKeys.ErrorQueue

/-!
# Scalar — unsigned integers of any width

A scalar is kept as its big-endian magnitude without leading zeros, so each number has exactly one
representation and equality of scalars is equality of numbers. Zero is the empty magnitude.

* `Scalar.ofBytes`, `Scalar.ofNat`: the scalar of an octet string and of a number.
* `Scalar.encode`: a fixed-width encoding, cut on the left or padded there.
* `Scalar.mod`: remainder; there is none by zero, and the arithmetic can fail.
-/

namespace CurveKeys

/-- A number as its octets, most significant first and not zero. -/
structure Scalar where
  magnitude : Bytes
  canonical : magnitude.head? ≠ some 0
  deriving DecidableEq

/-- Why a scalar operation has no result. -/
inductive Scalar.Error where
  | zeroModulus
  | failed (failure : QueuedFailure)
  deriving DecidableEq, Repr

namespace Scalar

def Error.message : Error → Bytes
  | zeroModulus    => Bytes.ascii "Scalar::Mod: zero modulus"
  | failed failure => failure.message

/-- The number a scalar stands for. -/
def value (a : Scalar) : Nat := BigEndian.value a.magnitude

theorem head?_dropWhile_zero (b : Bytes) : (b.dropWhile (· == 0)).head? ≠ some 0 := by
  intro h
  have := List.head?_dropWhile_not (· == (0 : UInt8)) b
  rw [h] at this
  exact absurd this (by decide)

/-- The scalar an octet string denotes; leading zeros are dropped. -/
def ofBytes (b : Bytes) : Scalar := ⟨b.dropWhile (· == 0), head?_dropWhile_zero b⟩

/-- The scalar of a number. -/
def ofNat (n : Nat) : Scalar := ofBytes (BigEndian.encode (BigEndian.octetCount n) n)

/-- The scalar of a 64-bit word. -/
def ofUInt64 (w : UInt64) : Scalar := ofBytes (BigEndian.encode 8 w.toNat)

/-- The scalar a hexadecimal text denotes. -/
def ofHex (text : Bytes) : Except Hex.Error Scalar := (Hex.decode text).map ofBytes

instance : Inhabited Scalar := ⟨ofBytes []⟩

/-- A shorter magnitude is smaller; of equally long ones the lexicographically smaller is. -/
instance : LT Scalar where
  lt a b := a.magnitude.length < b.magnitude.length ∨
    a.magnitude.length = b.magnitude.length ∧ a.magnitude < b.magnitude

instance (a b : Scalar) : Decidable (a < b) := by
  unfold LT.lt instLT
  infer_instance

def isZero (a : Scalar) : Bool := a.magnitude.isEmpty

def isOne (a : Scalar) : Bool := a.magnitude == [1]

/-- The number of octets of the magnitude. -/
def byteLength (a : Scalar) : Nat := a.magnitude.length

/-- The number of binary digits, none for zero. -/
def bitLength (a : Scalar) : Nat :=
  match a.magnitude with
  | []          => 0
  | top :: rest => rest.length * 8 + (top.toNat.log2 + 1)

theorem head?_take_ne_zero (a : Scalar) (n : Nat) : (a.magnitude.take n).head? ≠ some 0 := by
  intro h
  rw [List.head?_take] at h
  split at h
  · cases h
  · exact a.canonical h

/-- The scalar of the first `n` octets. -/
def first (a : Scalar) (n : Nat) : Scalar := ⟨a.magnitude.take n, a.head?_take_ne_zero n⟩

/-- How many octets the arithmetic is told of: their number goes through a word of 32 bits. -/
def toldLength (a : Scalar) : Nat := a.byteLength % 4294967296

/-- What the arithmetic is told of a scalar: as many octets from the front. -/
def told (a : Scalar) : Scalar := a.first a.toldLength

/-- The most octets of a number in the arithmetic: 8388607 words of eight. -/
def maxHeld : Nat := 67108856

/-- The most octets of a number that is divided, or divided by: dividing takes one word more. -/
def maxDivided : Nat := 67108848

/-- The number the arithmetic makes of a scalar. (A length in the upper half of the word counts as
negative, and fails as one that is too long.) -/
def held (a : Scalar) : Traced QueuedFailure Scalar :=
  if maxHeld < a.toldLength then
    ErrorQueue.raise Category.keys.name (Bytes.ascii "BN_bin2bn") [.numberTooLong]
  else pure a.told

/-- The remainder of `a` by `m` as the arithmetic computes it. -/
def remainder (a m : Scalar) : Traced QueuedFailure Scalar := do
  let a ← a.held
  let m ← m.held
  if m.isZero then
    ErrorQueue.raise Category.keys.name (Bytes.ascii "BN_nnmod") [.divisionByZero]
  else if maxDivided < a.byteLength ∨ maxDivided < m.byteLength then
    ErrorQueue.raise Category.keys.name (Bytes.ascii "BN_nnmod") [.numberTooLong]
  else pure (ofNat (a.value % m.value))

/-- The remainder of `a` by `m`. A zero modulus is refused before the arithmetic is asked. -/
def mod (a m : Scalar) : Traced Error Scalar :=
  if m.isZero then .ofExcept (.error .zeroModulus) else (a.remainder m).mapError .failed

/-- The last `width` octets of `a`, zeros in front when it has fewer. -/
def encode (a : Scalar) (width : Nat) : Bytes :=
  List.replicate (width - a.byteLength) 0 ++ a.magnitude.drop (a.byteLength - width)

/-- The magnitude in hexadecimal, two zeros for zero. -/
def toHex (a : Scalar) : Bytes :=
  if a.isZero then Bytes.ascii "00" else Hex.encode a.magnitude

@[simp] theorem length_encode (a : Scalar) (width : Nat) : (a.encode width).length = width := by
  simp only [encode, byteLength, List.length_append, List.length_replicate, List.length_drop]
  omega

end Scalar

end CurveKeys
