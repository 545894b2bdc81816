import Mathlib.GroupTheory.OrderOfElement
import Mathlib.Tactic.FieldSimp
import Mathlib.Tactic.LinearCombination
import CurveKeys.Proofs.Curve.GroupLaw

/-!
# Curve — the order of the base point

A multiple of the base point is infinity exactly when the factor is a multiple of `order`.

Since `order` is prime and the base point is not infinity, one equation is enough: the multiple by
`order - 1` is the opposite of the base point (`order_sub_one_nsmul_base`).  The kernel evaluates
it in Jacobian coordinates, where a point is `(x / z², y / z³)` and no step inverts
(`Jacobian.ladder`); `represents_ladder` says that what is evaluated is the multiple.

* `addOrderOf_base`, `nsmul_base_eq_zero_iff`: the order, in the group.
* `mul_generator_eq_infinity_iff`: the order, of the multiples that are computed.
* `copies_generator_inj_iff`: the sums of the base point, by the remainders of their numbers.
-/

noncomputable section

namespace CurveKeys.Curve

open FieldElement

/-- Three coordinates, which stand for `(x / z², y / z³)`, or for infinity when `z` is zero. -/
structure Jacobian where
  x : FieldElement
  y : FieldElement
  z : FieldElement

namespace Jacobian

/-! ### Doubling and adding without inverses -/

/-- The double of a point. -/
def double (p : Jacobian) : Jacobian :=
  let s := 4 * (p.x * (p.y * p.y))
  let m := 3 * (p.x * p.x)
  let x := m * m - 2 * s
  ⟨x, m * (s - x) - 8 * (p.y * p.y * (p.y * p.y)), 2 * (p.y * p.z)⟩

/-- The sum with a point in two coordinates; it is not formed when the first coordinates agree. -/
def add? (p : Jacobian) : Point → Option Jacobian
  | .infinity   => some p
  | .affine x y =>
    if p.z = 0 then some ⟨x, y, 1⟩
    else
      let h := x * (p.z * p.z) - p.x
      let r := y * (p.z * p.z * p.z) - p.y
      let v := p.x * (h * h)
      let x' := r * r - h * h * h - 2 * v
      if h = 0 then none else some ⟨x', r * (v - x') - p.y * (h * h * h), h * p.z⟩

/-- The multiple of a point along the binary digits of `k`. -/
def ladder (q : Point) (k : Nat) : Option Jacobian :=
  (binaryDigits k).foldl
    (fun r d => r.bind fun p => if d then p.double.add? q else some p.double) (some ⟨1, 1, 0⟩)

/-- Whether a point is the opposite of one in two coordinates. -/
def isOpposite (q : Point) (p : Jacobian) : Bool :=
  match q with
  | .infinity   => p.z == 0
  | .affine x y =>
    p.z != 0 && p.x == x * (p.z * p.z) && p.y == -(y * (p.z * p.z * p.z))

/-! ### What the coordinates stand for -/

/-- `p` stands for the point `P` of the group. -/
def Represents (p : Jacobian) (P : Group) : Prop :=
  (residue p.z = 0 ∧ P = 0) ∨
    residue p.z ≠ 0 ∧ ∃ x y h, P = .some x y h ∧
      residue p.x = x * residue p.z ^ 2 ∧ residue p.y = y * residue p.z ^ 3

theorem represents_double {p : Jacobian} {P : Group} (hp : p.Represents P) :
    p.double.Represents (P + P) := by
  rcases hp with ⟨hz, rfl⟩ | ⟨hz, x, y, h, rfl, hx, hy⟩
  · exact .inl ⟨by simp [double, hz], add_zero 0⟩
  by_cases hy₀ : y = 0
  · -- a point of order two
    refine .inl ⟨by simp [double, hy, hy₀], ?_⟩
    exact WeierstrassCurve.Affine.Point.add_self_of_Y_eq (by rw [negY_eq, hy₀, neg_zero])
  have h2y : 2 * y ≠ 0 := mul_ne_zero two_ne_zero hy₀
  have hne : y ≠ weierstrass.negY x y := by
    rwa [negY_eq, Ne, eq_neg_iff_add_eq_zero, ← two_mul]
  obtain ⟨m, hm⟩ : ∃ m, m = weierstrass.slope x x y y := ⟨_, rfl⟩
  have tangent : m * (2 * y) = 3 * x ^ 2 := by
    rw [hm, WeierstrassCurve.Affine.slope_of_Y_ne rfl hne, negY_eq, weierstrass_a₁,
      weierstrass_a₂, weierstrass_a₄, sub_neg_eq_add, ← two_mul, div_mul_cancel₀ _ h2y]
    ring
  have z' : residue p.double.z = 2 * y * residue p.z ^ 4 := by
    simp only [double, residue_mul, residue_ofNat, hy]; ring
  refine .inr ⟨?_, _, _, _, WeierstrassCurve.Affine.Point.add_self_of_Y_ne hne, ?_, ?_⟩
  · rw [z']
    exact mul_ne_zero h2y (pow_ne_zero 4 hz)
  · rw [z', ← hm]
    simp only [double, residue_mul, residue_sub, residue_ofNat, hx, hy,
      WeierstrassCurve.Affine.addX, weierstrass_a₁, weierstrass_a₂]
    linear_combination (-(m * (2 * y) + 3 * x ^ 2) * residue p.z ^ 8) * tangent
  · rw [z', ← hm]
    simp only [double, residue_mul, residue_sub, residue_ofNat, hx, hy,
      WeierstrassCurve.Affine.addY, WeierstrassCurve.Affine.negAddY,
      WeierstrassCurve.Affine.addX, negY_eq, weierstrass_a₁, weierstrass_a₂]
    linear_combination residue p.z ^ 12 * ((3 * x ^ 2) ^ 2 + 3 * x ^ 2 * (m * (2 * y))
      + (m * (2 * y)) ^ 2 - 12 * x * y ^ 2) * tangent

theorem represents_add? {p j : Jacobian} {q : Point} {P Q : Group} (hp : p.Represents P)
    (hq : Point.ofGroup Q = q) (hj : p.add? q = some j) : j.Represents (P + Q) := by
  subst hq
  rcases Q with _ | ⟨x₂, y₂, h₂⟩
  · obtain rfl : p = j := Option.some.inj hj
    exact (add_zero P).symm ▸ hp
  simp only [Point.ofGroup, add?] at hj
  rcases hp with ⟨hz, rfl⟩ | ⟨hz, x, y, h, rfl, hx, hy⟩
  · rw [if_pos (residue_injective (hz.trans residue_zero.symm))] at hj
    obtain rfl := Option.some.inj hj
    exact .inr ⟨by simp, x₂, y₂, h₂, zero_add _, by simp, by simp⟩
  rw [if_neg fun e => hz (by rw [e, residue_zero])] at hj
  split at hj
  · cases hj
  rename_i hne
  obtain rfl := Option.some.inj hj
  have hx₂ : x ≠ x₂ := fun e => hne (residue_injective (by simp [hx, e]; ring))
  obtain ⟨m, hm⟩ : ∃ m, m = weierstrass.slope x x₂ y y₂ := ⟨_, rfl⟩
  have chord : m * (x - x₂) = y - y₂ := by
    rw [hm, WeierstrassCurve.Affine.slope_of_X_ne hx₂, div_mul_cancel₀ _ (sub_ne_zero.mpr hx₂)]
  have z' : residue ((ofResidue x₂ * (p.z * p.z) - p.x) * p.z) = (x₂ - x) * residue p.z ^ 3 := by
    simp only [residue_mul, residue_sub, residue_ofResidue, hx]; ring
  refine .inr ⟨?_, _, _, _, WeierstrassCurve.Affine.Point.add_of_X_ne hx₂, ?_, ?_⟩
  · rw [z']
    exact mul_ne_zero (sub_ne_zero.mpr hx₂.symm) (pow_ne_zero 3 hz)
  · rw [z', ← hm]
    simp only [residue_mul, residue_sub, residue_ofNat, residue_ofResidue, hx, hy,
      WeierstrassCurve.Affine.addX, weierstrass_a₁, weierstrass_a₂]
    linear_combination residue p.z ^ 6 * (y₂ - y + m * (x₂ - x)) * chord
  · rw [z', ← hm]
    simp only [residue_mul, residue_sub, residue_ofNat, residue_ofResidue, hx, hy,
      WeierstrassCurve.Affine.addY, WeierstrassCurve.Affine.negAddY,
      WeierstrassCurve.Affine.addX, negY_eq, weierstrass_a₁, weierstrass_a₂]
    linear_combination residue p.z ^ 9 * (3 * x * (x₂ - x) ^ 2 + (x₂ - x) ^ 3
      - (y₂ - y) ^ 2 - (y₂ - y) * (m * (x₂ - x)) - (m * (x₂ - x)) ^ 2) * chord

/-- **What the ladder evaluates**: if it ends, it ends at the multiple. -/
theorem represents_ladder {q : Point} {Q : Group} (hq : Point.ofGroup Q = q) (k : Nat) :
    ∀ j, ladder q k = some j → j.Represents (k • Q) := by
  refine foldl_binaryDigits (R := fun v r => ∀ j : Jacobian, r = some j → j.Represents (v • Q)) ?_
    (fun v r d ih j hj => ?_) k
  · intro j hj
    obtain rfl := Option.some.inj hj
    exact .inl ⟨residue_zero, zero_nsmul Q⟩
  · obtain ⟨p, hp, hj⟩ := Option.bind_eq_some_iff.mp hj
    have hdbl := represents_double (ih p hp)
    rw [← two_nsmul, smul_smul] at hdbl
    cases d with
    | false =>
        obtain rfl := Option.some.inj hj
        exact hdbl
    | true =>
        rw [Bool.toNat_true, succ_nsmul]
        exact represents_add? hdbl hq hj

theorem eq_neg_of_isOpposite {p : Jacobian} {q : Point} {P Q : Group} (hp : p.Represents P)
    (hq : Point.ofGroup Q = q) (h : isOpposite q p = true) : P = -Q := by
  subst hq
  rcases Q with _ | ⟨x₂, y₂, h₂⟩
  · have hz : residue p.z = 0 := by rw [beq_iff_eq.mp h, residue_zero]
    rcases hp with ⟨-, rfl⟩ | ⟨hz', -⟩
    · rfl
    · exact absurd hz hz'
  · simp only [isOpposite, Point.ofGroup, Bool.and_eq_true, bne_iff_ne, beq_iff_eq] at h
    obtain ⟨⟨hz, hx₂⟩, hy₂⟩ := h
    rcases hp with ⟨hz', -⟩ | ⟨hz', x, y, hn, rfl, hx, hy⟩
    · exact absurd (residue_injective (hz'.trans residue_zero.symm)) hz
    · rw [hx₂] at hx
      rw [hy₂] at hy
      simp only [residue_mul, residue_neg, residue_ofResidue] at hx hy
      rw [WeierstrassCurve.Affine.Point.neg_some, WeierstrassCurve.Affine.Point.some.injEq, negY_eq]
      constructor
      · exact (mul_right_cancel₀ (pow_ne_zero 2 hz') (by linear_combination hx)).symm
      · exact (mul_right_cancel₀ (pow_ne_zero 3 hz') (by linear_combination hy)).symm

end Jacobian

/-! ### The order -/

theorem ladder_order_sub_one :
    ∃ j, Jacobian.ladder generator (order - 1) = some j ∧
      Jacobian.isOpposite generator j = true := by
  refine (Option.any_eq_true _ _).mp ?_
  decide +kernel

theorem order_sub_one_nsmul_base : (order - 1) • base = -base := by
  obtain ⟨j, hj, h⟩ := ladder_order_sub_one
  exact Jacobian.eq_neg_of_isOpposite (Jacobian.represents_ladder ofGroup_base _ j hj)
    ofGroup_base h

theorem base_ne_zero : base ≠ 0 := by
  intro e
  have h := ofGroup_base
  rw [e] at h
  cases h

theorem order_nsmul_base : order • base = 0 := by
  have h : order = order - 1 + 1 := rfl
  rw [h, succ_nsmul, order_sub_one_nsmul_base, neg_add_cancel]

/-- **The order of the base point.** -/
theorem addOrderOf_base : addOrderOf base = order :=
  have : Fact order.Prime := ⟨order_prime⟩
  addOrderOf_eq_prime order_nsmul_base base_ne_zero

theorem nsmul_base_eq_zero_iff {k : Nat} : k • base = 0 ↔ order ∣ k := by
  rw [← addOrderOf_base, addOrderOf_dvd_iff_nsmul_eq_zero]

/-- The multiples of the base point are told apart by the remainders of their factors. -/
theorem nsmul_base_inj_iff {m n : Nat} : m • base = n • base ↔ m ≡ n [MOD order] := by
  rw [nsmul_eq_nsmul_iff_modEq, addOrderOf_base]

theorem mul_generator_eq_infinity_iff {k : Nat} : generator.mul k = .infinity ↔ order ∣ k := by
  rw [← nsmul_base_eq_zero_iff, ← ofGroup_base, Point.mul_ofGroup, ← Point.ofGroup_zero]
  exact Point.ofGroup_injective.eq_iff

/-- **Two sums of the base point** are equal when their numbers leave the same remainder. -/
theorem copies_generator_inj_iff {m n : Nat} :
    Point.copies m generator = Point.copies n generator ↔ m ≡ n [MOD order] := by
  rw [← nsmul_base_inj_iff, ← ofGroup_base, Point.copies_ofGroup, Point.copies_ofGroup]
  exact Point.ofGroup_injective.eq_iff

end CurveKeys.Curve

end
