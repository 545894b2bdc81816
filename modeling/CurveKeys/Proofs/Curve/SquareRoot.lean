import CurveKeys.Proofs.Curve.GroupLaw

/-!
# Curve — square roots

A square has two roots, opposite to each other, and of opposite parity unless they are zero.  So a
first coordinate and a parity determine at most one point of the curve; and since no point has the
second coordinate zero, both parities occur wherever one does.

* `mul_self_of_sqrt?`, `exists_sqrt?`: the power `a ^ ((p + 1) / 4)` is a root of each square.
* `mul_self_isOdd_inj`: a square and a parity determine the root.
* `cubic_ne_zero`: no point has the second coordinate zero, for `7` is not a cube.
* `onCurve_parity`, `onCurve_isOdd_inj`: with each first coordinate of a point, both parities occur,
  each of them once.
-/

namespace CurveKeys.Curve

namespace FieldElement

/-! ### The two roots -/

theorem mul_self_inj {a b : FieldElement} : a * a = b * b ↔ a = b ∨ a = -b := by
  rw [← residue_inj, residue_mul, residue_mul, mul_self_eq_mul_self_iff, ← residue_neg,
    residue_inj, residue_inj]

theorem neg_mul_neg_self (a : FieldElement) : -a * -a = a * a :=
  mul_self_inj.mpr (.inr rfl)

theorem val_neg {a : FieldElement} (h : a ≠ 0) : (-a).val = prime - a.val := by
  rw [Fin.val_neg, if_neg h]

/-- The modulus is odd, so an element and its opposite differ in parity. -/
theorem isOdd_neg {a : FieldElement} (h : a ≠ 0) : (-a).isOdd = !a.isOdd := by
  have odd : prime % 2 = 1 := by decide
  have ha := a.isLt
  rw [isOdd, isOdd, val_neg h]
  rcases Nat.mod_two_eq_zero_or_one a.val with e | e
  · have e' : (prime - a.val) % 2 = 1 := by omega
    rw [e, e']
    rfl
  · have e' : (prime - a.val) % 2 = 0 := by omega
    rw [e, e']
    rfl

/-- **A square and a parity** determine the root. -/
theorem mul_self_isOdd_inj {a b : FieldElement} (h : a * a = b * b) (ho : a.isOdd = b.isOdd) :
    a = b := by
  rcases mul_self_inj.mp h with e | e
  · exact e
  · by_cases hb : b = 0
    · rw [e, hb]
      rfl
    · rw [e, isOdd_neg hb] at ho
      exact absurd ho (Bool.not_ne_self _)

/-! ### Finding one -/

theorem mul_self_of_sqrt? {a r : FieldElement} (h : a.sqrt? = some r) : r * r = a := by
  rw [sqrt?] at h
  split_ifs at h with hr
  rw [← Option.some.inj h]
  exact hr

/-- Four times the exponent of the root is two more than the order of the group of units. -/
theorem exists_rootExponent :
    ∃ n, rootExponent = binaryDigits n ∧ n + n + (n + n) = prime - 1 + 2 :=
  ⟨(prime + 1) / 4, rfl, by decide⟩

/-- The power that is tried is a root of every square. -/
theorem exists_sqrt? {a r : FieldElement} (h : r * r = a) : ∃ s, a.sqrt? = some s := by
  obtain ⟨n, hn, split⟩ := exists_rootExponent
  have hs : a.powDigits rootExponent * a.powDigits rootExponent = a := by
    refine residue_injective ?_
    rw [hn, residue_mul, residue_powDigits, ← h, residue_mul]
    by_cases hr : residue r = 0
    · rw [hr, mul_zero, zero_pow (by omega), mul_zero]
    · rw [← pow_add, mul_pow, ← pow_add, split, pow_add, ZMod.pow_card_sub_one_eq_one hr, one_mul,
        sq]
  exact ⟨_, by rw [sqrt?, if_pos hs]⟩

end FieldElement

open FieldElement

/-! ### Points with a given first coordinate -/

theorem onCurve_eq_true_iff {x y : FieldElement} : onCurve x y = true ↔ y * y = cubic x :=
  beq_iff_eq

/-- A third of the order of the group of units is an exponent that takes cubes to one. -/
theorem powMod_seven_ne_one : powMod prime 7 ((prime - 1) / 3) ≠ 1 % prime := by decide +kernel

/-- **No point has the second coordinate zero.**  Otherwise `-x` would be a cube root of `7`. -/
theorem cubic_ne_zero (x : FieldElement) : cubic x ≠ 0 := by
  intro h
  have e := congrArg residue h
  simp only [cubic, residue_add, residue_mul, residue_ofNat, residue_zero] at e
  have cube : (-residue x) ^ 3 = ((7 : Nat) : ZMod prime) := by
    push_cast
    linear_combination -e
  have h₀ : -residue x ≠ 0 := by
    intro hx
    rw [hx, zero_pow (by decide)] at cube
    exact natCast_ne_zero (by decide) (by decide) cube.symm
  refine powMod_seven_ne_one (natCast_pow_eq_one_iff.mp ?_)
  rw [← cube, ← pow_mul]
  exact ZMod.pow_card_sub_one_eq_one h₀

theorem ne_zero_of_onCurve {x y : FieldElement} (h : onCurve x y = true) : y ≠ 0 := by
  rintro rfl
  exact cubic_ne_zero x ((onCurve_eq_true_iff.mp h).symm.trans (mul_zero 0))

/-- **Both parities occur**: of a second coordinate and its opposite, one has the parity. -/
theorem onCurve_parity {x y : FieldElement} (h : onCurve x y = true) (odd : Bool) :
    onCurve x (if y.isOdd = odd then y else -y) = true ∧
      (if y.isOdd = odd then y else -y).isOdd = odd := by
  by_cases ho : y.isOdd = odd
  · rw [if_pos ho]
    exact ⟨h, ho⟩
  · rw [if_neg ho, onCurve_eq_true_iff, neg_mul_neg_self, isOdd_neg (ne_zero_of_onCurve h)]
    exact ⟨onCurve_eq_true_iff.mp h, Bool.not_eq.mpr ho⟩

/-- A first coordinate and a parity determine the point. -/
theorem onCurve_isOdd_inj {x y y' : FieldElement} (h : onCurve x y = true)
    (h' : onCurve x y' = true) (ho : y.isOdd = y'.isOdd) : y = y' :=
  mul_self_isOdd_inj
    ((onCurve_eq_true_iff.mp h).trans (onCurve_eq_true_iff.mp h').symm) ho

end CurveKeys.Curve
