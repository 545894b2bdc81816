import Mathlib.Data.Nat.Log
import CurveKeys.Bytes.BigEndian
import CurveKeys.Proofs.Bytes.Positional

/-!
# Bytes — big-endian numbers and octet strings

An octet string is determined by its length and the number it denotes, so of each length `encode`
and `value` are inverse to each other (`value_encode`, `encode_value`), and among strings of one
length the lexicographic order is the order of the numbers (`lt_iff_value_lt`).

* `value_append`, `value_lt`: the value of a concatenation, and its bound.
* `value_dropWhile_zero`: zeros in front do not count.
* `octetCount_le_iff`: a number takes at most `w` octets when it is below `256 ^ w`.
* `octetCount_value`, `head?_encode_octetCount`: the shortest string for a number is the one that
  does not begin with a zero.
-/

namespace CurveKeys.BigEndian

/-- The octets that are written denote the number modulo `256 ^ width`. -/
theorem value_encode (width n : Nat) : value (encode width n) = n % 256 ^ width := by
  induction width generalizing n with
  | zero => simp [encode, Nat.mod_one]
  | succ w ih =>
      rw [encode, value_append_singleton, ih, Nat.pow_succ, Nat.mul_comm (256 ^ w),
        Nat.mod_mul, UInt8.toNat_ofNat']
      omega

/-! ### The value of a string -/

theorem positional : Positional 256 UInt8.toNat value := ⟨value_nil, value_append_singleton⟩

theorem value_append (a b : Bytes) : value (a ++ b) = value a * 256 ^ b.length + value b :=
  positional.append a b

theorem value_cons (x : UInt8) (b : Bytes) :
    value (x :: b) = x.toNat * 256 ^ b.length + value b :=
  positional.cons x b

theorem value_lt (b : Bytes) : value b < 256 ^ b.length :=
  positional.lt_pow fun x _ => x.toNat_lt

/-- **The string of a length that denotes a number** is unique. -/
theorem encode_value (b : Bytes) : encode b.length (value b) = b := by
  induction b using List.reverseRecOn with
  | nil => rfl
  | append_singleton b x ih =>
      have hx := x.toNat_lt
      rw [List.length_append, List.length_singleton, encode, value_append_singleton,
        show (value b * 256 + x.toNat) / 256 = value b by omega, ih]
      congr 2
      exact UInt8.toNat_inj.mp (by rw [UInt8.toNat_ofNat']; omega)

theorem value_inj_of_length {a b : Bytes} (hl : a.length = b.length) (h : value a = value b) :
    a = b := by
  rw [← encode_value a, hl, h, encode_value]

theorem value_replicate_zero (k : Nat) : value (List.replicate k 0) = 0 := by
  rw [← List.append_nil (List.replicate k 0), positional.replicate_append rfl, value_nil]

/-- Zeros in front do not count. -/
theorem value_dropWhile_zero (b : Bytes) : value (b.dropWhile (· == 0)) = value b := by
  induction b with
  | nil => rfl
  | cons x b ih =>
      rw [List.dropWhile_cons]
      split
      · rename_i hx
        rw [ih, value_cons, beq_iff_eq.mp hx]
        simp
      · rfl

/-- A string that does not begin with a zero denotes a number its length is needed for. -/
theorem le_value_of_head_ne_zero {x : UInt8} {b : Bytes} (h : x ≠ 0) :
    256 ^ b.length ≤ value (x :: b) := by
  have hx : 1 ≤ x.toNat := Nat.pos_of_ne_zero fun e => h (UInt8.toNat_inj.mp e)
  rw [value_cons]
  calc 256 ^ b.length = 1 * 256 ^ b.length := (one_mul _).symm
    _ ≤ x.toNat * 256 ^ b.length := Nat.mul_le_mul_right _ hx
    _ ≤ x.toNat * 256 ^ b.length + value b := Nat.le_add_right _ _

/-- **Among strings of one length** the lexicographic order is the order of the numbers. -/
theorem lt_iff_value_lt {a b : Bytes} (h : a.length = b.length) : a < b ↔ value a < value b :=
  positional.lt_iff (fun _ _ _ _ hxy => hxy) h (fun x _ => x.toNat_lt) fun y _ => y.toNat_lt

/-! ### How many octets a number takes -/

theorem octetCount_le_iff {n w : Nat} : octetCount n ≤ w ↔ n < 256 ^ w := by
  have e : (256 : Nat) ^ w = 2 ^ (8 * w) := by rw [pow_mul]; rfl
  rw [e]
  by_cases h : n = 0
  · simp [octetCount, h]
  · rw [octetCount, if_neg h, ← Nat.log2_lt h]
    omega

theorem octetCount_pos {n : Nat} (h : n ≠ 0) : 0 < octetCount n :=
  Nat.pos_of_ne_zero fun h₀ => h (Nat.lt_one_iff.mp (octetCount_le_iff.mp (Nat.le_of_eq h₀)))

theorem lt_pow_octetCount (n : Nat) : n < 256 ^ octetCount n := octetCount_le_iff.mp le_rfl

@[simp] theorem value_encode_octetCount (n : Nat) : value (encode (octetCount n) n) = n := by
  rw [value_encode, Nat.mod_eq_of_lt (lt_pow_octetCount n)]

/-- A string that does not begin with a zero has as many octets as its number takes. -/
theorem octetCount_value {b : Bytes} (h : b.head? ≠ some 0) : octetCount (value b) = b.length := by
  refine le_antisymm (octetCount_le_iff.mpr (value_lt b)) ?_
  rcases b with _ | ⟨x, b⟩
  · exact Nat.zero_le _
  · have hx : x ≠ 0 := fun e => h (congrArg some e)
    refine Nat.lt_of_not_le fun hle => ?_
    exact absurd (octetCount_le_iff.mp hle) (Nat.not_lt.mpr (le_value_of_head_ne_zero hx))

theorem head?_encode_octetCount (n : Nat) : (encode (octetCount n) n).head? ≠ some 0 := by
  intro h
  have hl := length_encode (octetCount n) n
  have hv := value_encode_octetCount n
  rcases e : encode (octetCount n) n with _ | ⟨x, b⟩
  · rw [e] at h
    cases h
  · rw [e] at h hl hv
    obtain rfl := Option.some.inj h
    -- The number is already that of `b`, which is one octet shorter.
    have hb : octetCount n ≤ b.length := by
      refine octetCount_le_iff.mpr (hv ▸ ?_)
      rw [value_cons]
      simpa using value_lt b
    rw [← hl, List.length_cons] at hb
    omega

end CurveKeys.BigEndian
