/-!
# Bytes — octet strings

Text and data alike are octet strings: nothing here decodes characters, so every rule about length,
order and character class is a rule about octets.

* `Bytes.ascii`: the octets of an ASCII literal.
* `Bytes.fit`: a string cut, or padded with zeros at its end, to a given length.
* `Bytes.upToNul`: the part of a string before its first zero octet.
-/

namespace CurveKeys

/-- An octet string. -/
abbrev Bytes := List UInt8

namespace Bytes

/-- The octets of a text whose characters are all ASCII. -/
def ascii (s : String) : Bytes := s.toList.map Char.toUInt8

/-- `b` cut to `n` octets, or padded with zeros at its end. -/
def fit (n : Nat) (b : Bytes) : Bytes := b.take n ++ List.replicate (n - b.length) 0

/-- The octets before the first zero octet. -/
def upToNul (b : Bytes) : Bytes := b.takeWhile (· != 0)

@[simp] theorem length_fit (n : Nat) (b : Bytes) : (fit n b).length = n := by
  simp only [fit, List.length_append, List.length_take, List.length_replicate]
  omega

theorem fit_of_length_le {n : Nat} {b : Bytes} (h : b.length ≤ n) :
    fit n b = b ++ List.replicate (n - b.length) 0 := by
  rw [fit, List.take_of_length_le h]

theorem zero_not_mem_upToNul (b : Bytes) : 0 ∉ upToNul b := by
  intro h
  have := List.all_takeWhile (l := b) (p := (· != 0))
  exact absurd (List.all_eq_true.1 this 0 h) (by decide)

end Bytes

end CurveKeys
