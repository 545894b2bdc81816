import Mathlib.FieldTheory.Finite.Basic
import CurveKeys.Proofs.Curve.Primality

/-!
# Curve — field elements as residue classes

`residue` sends a field element to its class in `ZMod prime`, which is a field because `prime` is
prime.  It is a bijection that keeps the operations, so an equation between field elements is an
equation between classes.

* `residue_powDigits`: the power along binary digits is the power.
* `residue_inverse`: the power `a ^ (p - 2)` is the inverse, and zero has the inverse zero.
-/

namespace CurveKeys.Curve

instance : Fact prime.Prime := ⟨prime_prime⟩

namespace FieldElement

/-- The class of a field element. -/
def residue (a : FieldElement) : ZMod prime := (a.val : ZMod prime)

/-- The field element of a class. -/
def ofResidue (z : ZMod prime) : FieldElement := ⟨z.val, z.val_lt⟩

@[simp] theorem residue_ofResidue (z : ZMod prime) : residue (ofResidue z) = z :=
  ZMod.natCast_zmod_val z

@[simp] theorem ofResidue_residue (a : FieldElement) : ofResidue (residue a) = a :=
  Fin.ext (ZMod.val_cast_of_lt a.isLt)

theorem residue_injective : Function.Injective residue :=
  Function.LeftInverse.injective ofResidue_residue

theorem residue_inj {a b : FieldElement} : residue a = residue b ↔ a = b :=
  residue_injective.eq_iff

/-! ### The operations -/

@[simp] theorem residue_natCast (n : Nat) : residue (Fin.ofNat prime n) = n := by
  simp only [residue, Fin.val_ofNat, ZMod.natCast_mod]

@[simp] theorem residue_add (a b : FieldElement) : residue (a + b) = residue a + residue b := by
  simp only [residue, Fin.val_add, ZMod.natCast_mod, Nat.cast_add]

@[simp] theorem residue_mul (a b : FieldElement) : residue (a * b) = residue a * residue b := by
  simp only [residue, Fin.val_mul, ZMod.natCast_mod, Nat.cast_mul]

@[simp] theorem residue_sub (a b : FieldElement) : residue (a - b) = residue a - residue b := by
  simp only [residue, Fin.sub_def, ZMod.natCast_mod, Nat.cast_add, Nat.cast_sub b.isLt.le,
    ZMod.natCast_self]
  ring

@[simp] theorem residue_zero : residue 0 = 0 := residue_natCast 0

@[simp] theorem residue_one : residue 1 = 1 := (residue_natCast 1).trans Nat.cast_one

@[simp] theorem residue_ofNat (n : Nat) [n.AtLeastTwo] :
    residue (no_index (OfNat.ofNat n)) = OfNat.ofNat n :=
  (residue_natCast n).trans Nat.cast_ofNat

@[simp] theorem residue_neg (a : FieldElement) : residue (-a) = -residue a := by
  rw [← zero_sub (residue a), ← residue_zero, ← residue_sub]
  rfl

/-! ### Powers and inverses -/

/-- **The power along binary digits**, from the most significant one down. -/
theorem residue_powDigits (a : FieldElement) (n : Nat) :
    residue (a.powDigits (binaryDigits n)) = residue a ^ n := by
  refine foldl_binaryDigits (R := fun v r => residue r = residue a ^ v)
    (by rw [residue_one, pow_zero]) (fun v r d h => ?_) n
  cases d with
  | false => simp [h, two_mul, pow_add]
  | true => simp [h, two_mul, pow_add]

/-- `a ^ (p - 2)` inverts `a`; the inverse of zero is zero. -/
@[simp] theorem residue_inverse (a : FieldElement) : residue a.inverse = (residue a)⁻¹ := by
  rw [FieldElement.inverse, inverseExponent, residue_powDigits]
  by_cases h : residue a = 0
  · rw [h, inv_zero, zero_pow (by decide)]
  · refine (inv_eq_of_mul_eq_one_right ?_).symm
    rw [← pow_succ']
    exact ZMod.pow_card_sub_one_eq_one h

end FieldElement

end CurveKeys.Curve
