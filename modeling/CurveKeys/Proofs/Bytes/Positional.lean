import Mathlib.Data.List.Induction
import Mathlib.Tactic.Ring
import CurveKeys.Bytes.Basic

/-!
# Bytes — positional numbers

A string of digits denotes a number of which each digit counts `base` times as much as the next,
whichever octets the digits are.

* `Positional.append`, `Positional.lt_pow`: the number of a concatenation, and its bound.
* `Positional.lt_iff`: among digits of one length the lexicographic order is the order of the numbers.
* `Positional.inj`: digits of one length are determined by their number.
-/

namespace CurveKeys

/-- `value` reads a string as a number, with `digit` for each octet. -/
structure Positional (base : Nat) (digit : UInt8 → Nat) (value : Bytes → Nat) : Prop where
  nil : value [] = 0
  concat : ∀ b x, value (b ++ [x]) = value b * base + digit x

namespace Positional

/-- The leading digit decides. -/
theorem mul_add_lt_mul_add {x y u v k : Nat} (hu : u < k) (h : x < y) :
    x * k + u < y * k + v :=
  calc x * k + u < x * k + k := Nat.add_lt_add_left hu _
    _ = (x + 1) * k := (Nat.succ_mul x k).symm
    _ ≤ y * k := Nat.mul_le_mul_right k h
    _ ≤ y * k + v := Nat.le_add_right _ _

variable {base : Nat} {digit : UInt8 → Nat} {value : Bytes → Nat} {a b : Bytes}
  (h : Positional base digit value)
include h

theorem append (a b : Bytes) : value (a ++ b) = value a * base ^ b.length + value b := by
  induction b using List.reverseRecOn with
  | nil => rw [List.append_nil, h.nil, List.length_nil, pow_zero, mul_one, add_zero]
  | append_singleton b x ih =>
      rw [← List.append_assoc, h.concat, h.concat, ih, List.length_append, List.length_singleton,
        pow_succ]
      ring

theorem cons (x : UInt8) (b : Bytes) : value (x :: b) = digit x * base ^ b.length + value b := by
  have hx : value [x] = digit x := by
    rw [← List.nil_append [x], h.concat, h.nil, Nat.zero_mul, Nat.zero_add]
  rw [← List.singleton_append, h.append, hx]

/-- Zeros in front do not count. -/
theorem replicate_append {zero : UInt8} (hz : digit zero = 0) (k : Nat) (b : Bytes) :
    value (List.replicate k zero ++ b) = value b := by
  induction k with
  | zero => rfl
  | succ k ih =>
      rw [List.replicate_succ, List.cons_append, h.cons, hz, ih, Nat.zero_mul, Nat.zero_add]

theorem lt_pow (hb : ∀ x ∈ b, digit x < base) : value b < base ^ b.length := by
  induction b with
  | nil => simp [h.nil]
  | cons x b ih =>
      obtain ⟨hx, hb⟩ := List.forall_mem_cons.mp hb
      calc value (x :: b) = digit x * base ^ b.length + value b := h.cons x b
        _ < digit x * base ^ b.length + base ^ b.length := Nat.add_lt_add_left (ih hb) _
        _ = (digit x + 1) * base ^ b.length := (Nat.succ_mul _ _).symm
        _ ≤ base * base ^ b.length := Nat.mul_le_mul_right _ hx
        _ = base ^ (x :: b).length := (pow_succ' base b.length).symm

variable (mono : ∀ x y, digit x < base → digit y < base → x < y → digit x < digit y)
include mono

/-- **Among digits of one length** the lexicographic order is the order of the numbers. -/
theorem lt_iff (hl : a.length = b.length) (ha : ∀ x ∈ a, digit x < base)
    (hb : ∀ x ∈ b, digit x < base) : a < b ↔ value a < value b := by
  induction a generalizing b with
  | nil =>
      obtain rfl := List.length_eq_zero_iff.mp hl.symm
      exact iff_of_false (List.lt_irrefl _) (lt_irrefl _)
  | cons x a ih =>
      rcases b with _ | ⟨y, b⟩
      · cases hl
      replace hl : a.length = b.length := Nat.succ.inj hl
      obtain ⟨hx, ha⟩ := List.forall_mem_cons.mp ha
      obtain ⟨hy, hb⟩ := List.forall_mem_cons.mp hb
      rw [List.cons_lt_cons_iff, h.cons, h.cons, hl, ih hl ha hb]
      rcases lt_trichotomy x.toNat y.toNat with hxy | hxy | hxy
      · exact iff_of_true (.inl hxy) (mul_add_lt_mul_add (hl ▸ h.lt_pow ha) (mono x y hx hy hxy))
      · obtain rfl := UInt8.toNat_inj.mp hxy
        simp
      · have hyx := mono y x hy hx hxy
        refine iff_of_false ?_ (lt_asymm (mul_add_lt_mul_add (h.lt_pow hb) hyx))
        rintro (h' | ⟨rfl, -⟩)
        · exact lt_asymm hxy h'
        · exact lt_irrefl _ hxy

/-- **Digits of one length** are determined by their number. -/
theorem inj (hl : a.length = b.length) (ha : ∀ x ∈ a, digit x < base)
    (hb : ∀ x ∈ b, digit x < base) (he : value a = value b) : a = b := by
  have hab : ¬ a < b := by
    rw [h.lt_iff mono hl ha hb, he]
    exact lt_irrefl _
  have hba : ¬ b < a := by
    rw [h.lt_iff mono hl.symm hb ha, he]
    exact lt_irrefl _
  exact List.le_antisymm (List.not_lt.mp hba) (List.not_lt.mp hab)

end Positional

end CurveKeys
