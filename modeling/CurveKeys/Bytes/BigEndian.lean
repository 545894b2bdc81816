import CurveKeys.Bytes.Basic

/-!
# Bytes — big-endian numbers

An octet string denotes the number whose base-256 digits it lists, most significant first.

* `value_append_singleton`: the value of a string with one more octet.
* `length_encode`: `encode width n` has `width` octets.
-/

namespace CurveKeys.BigEndian

/-- The number an octet string denotes. -/
def value (b : Bytes) : Nat := b.foldl (fun acc x => acc * 256 + x.toNat) 0

/-- The low `width` octets of `n`. -/
def encode : Nat → Nat → Bytes
  | 0, _ => []
  | width + 1, n => encode width (n / 256) ++ [UInt8.ofNat n]

/-- How many octets `n` takes, none for zero. -/
def octetCount (n : Nat) : Nat := if n = 0 then 0 else n.log2 / 8 + 1

@[simp] theorem value_nil : value [] = 0 := rfl

theorem value_append_singleton (b : Bytes) (x : UInt8) :
    value (b ++ [x]) = value b * 256 + x.toNat := by
  simp [value]

@[simp] theorem length_encode (width n : Nat) : (encode width n).length = width := by
  induction width generalizing n with
  | zero => rfl
  | succ w ih => simp [encode, ih]

end CurveKeys.BigEndian
