import Mathlib.AlgebraicGeometry.EllipticCurve.Affine.Point
import CurveKeys.Proofs.Curve.Residue

/-!
# Curve — the points are a group

`weierstrass` is the curve `y² = x³ + 7` over the classes modulo `prime`, and `Group` the group of
its points.  `Point.ofGroup` writes a point of the group in field elements.

* `add_ofGroup`: the chord-and-tangent law is the addition of the group.
* `mul_ofGroup`, `copies_ofGroup`: doubling and adding along binary digits and adding copies one
  after the other both give the multiple of the group.  So `mul_eq_copies` holds on the curve.
* `onCurve_iff`: the points of the curve are those of the group, infinity apart.
-/

noncomputable section

namespace CurveKeys.Curve

open FieldElement

/-! ### The curve over the classes -/

/-- The curve `y² = x³ + 7`. -/
def weierstrass : WeierstrassCurve.Affine (ZMod prime) := ⟨0, 0, 0, 0, 7⟩

/-- Its points and the point at infinity. -/
abbrev Group := weierstrass.Point

@[simp] theorem weierstrass_a₁ : weierstrass.a₁ = 0 := rfl
@[simp] theorem weierstrass_a₂ : weierstrass.a₂ = 0 := rfl
@[simp] theorem weierstrass_a₃ : weierstrass.a₃ = 0 := rfl
@[simp] theorem weierstrass_a₄ : weierstrass.a₄ = 0 := rfl
@[simp] theorem weierstrass_a₆ : weierstrass.a₆ = 7 := rfl

/-- A number below the order of the field and not zero is not zero in it. -/
theorem natCast_ne_zero {n : Nat} (h₀ : n ≠ 0) (h : n < prime) : (n : ZMod prime) ≠ 0 :=
  fun e => absurd (Nat.le_of_dvd (Nat.pos_of_ne_zero h₀)
    ((ZMod.natCast_eq_zero_iff n prime).mp e)) (Nat.not_le.mpr h)

theorem two_ne_zero : (2 : ZMod prime) ≠ 0 := by
  exact_mod_cast natCast_ne_zero (n := 2) (by decide) (by decide)

/-- The discriminant is `-21168`. -/
instance : weierstrass.IsElliptic where
  isUnit := by
    refine IsUnit.mk0 _ ?_
    have h : weierstrass.Δ = -((21168 : Nat) : ZMod prime) := by
      simp only [WeierstrassCurve.Δ, WeierstrassCurve.b₂, WeierstrassCurve.b₄,
        WeierstrassCurve.b₆, WeierstrassCurve.b₈, weierstrass_a₁, weierstrass_a₂, weierstrass_a₃,
        weierstrass_a₄, weierstrass_a₆]
      norm_num
    rw [h]
    exact neg_ne_zero.mpr (natCast_ne_zero (by decide) (by decide))

theorem nonsingular_iff {x y : ZMod prime} :
    weierstrass.Nonsingular x y ↔ y * y = x * x * x + 7 := by
  rw [← WeierstrassCurve.Affine.equation_iff_nonsingular, WeierstrassCurve.Affine.equation_iff]
  simp only [weierstrass_a₁, weierstrass_a₂, weierstrass_a₃, weierstrass_a₄, weierstrass_a₆]
  ring_nf

theorem negY_eq (x y : ZMod prime) : weierstrass.negY x y = -y := by
  simp [WeierstrassCurve.Affine.negY]

/-! ### From the group to field elements -/

namespace Point

/-- A point of the group in field elements. -/
def ofGroup : Group → Point
  | .zero       => .infinity
  | .some x y _ => .affine (ofResidue x) (ofResidue y)

@[simp] theorem ofGroup_zero : ofGroup 0 = .infinity := rfl

theorem ofGroup_injective : Function.Injective ofGroup := by
  rintro (_ | ⟨x, y, h⟩) (_ | ⟨x', y', h'⟩) e
  · rfl
  · cases e
  · cases e
  · simp only [ofGroup, affine.injEq] at e
    have hx : x = x' := by simpa using congrArg residue e.1
    have hy : y = y' := by simpa using congrArg residue e.2
    subst hx hy
    rfl

/-- The slope of the chord or tangent of two points that are not opposite. -/
theorem residue_slope {x₁ y₁ x₂ y₂ : FieldElement} (h : ¬(x₁ = x₂ ∧ y₁ = -y₂)) :
    residue (slope x₁ y₁ x₂ y₂) =
      weierstrass.slope (residue x₁) (residue x₂) (residue y₁) (residue y₂) := by
  by_cases hx : x₁ = x₂
  · subst hx
    have hy : residue y₁ ≠ weierstrass.negY (residue x₁) (residue y₂) := by
      rw [negY_eq, ← residue_neg]
      exact fun e => h ⟨rfl, residue_injective e⟩
    rw [slope, if_pos rfl, WeierstrassCurve.Affine.slope_of_Y_ne rfl hy, negY_eq]
    simp only [residue_mul, residue_inverse, residue_ofNat, weierstrass_a₁, weierstrass_a₂,
      weierstrass_a₄]
    ring
  · have hx' : residue x₁ ≠ residue x₂ := fun e => hx (residue_injective e)
    rw [slope, if_neg hx, WeierstrassCurve.Affine.slope_of_X_ne hx']
    simp only [residue_mul, residue_inverse, residue_sub]
    ring

/-- **The chord-and-tangent law is the addition of the group.** -/
theorem add_ofGroup (P Q : Group) : (ofGroup P).add (ofGroup Q) = ofGroup (P + Q) := by
  rcases P with _ | ⟨x₁, y₁, h₁⟩
  · exact congrArg ofGroup (zero_add Q).symm
  rcases Q with _ | ⟨x₂, y₂, h₂⟩
  · rfl
  have hxy : (ofResidue x₁ = ofResidue x₂ ∧ ofResidue y₁ = -ofResidue y₂) ↔
      x₁ = x₂ ∧ y₁ = weierstrass.negY x₂ y₂ := by
    rw [negY_eq, ← residue_inj, ← residue_inj]
    simp only [residue_ofResidue, residue_neg]
  simp only [ofGroup, add]
  by_cases h : x₁ = x₂ ∧ y₁ = weierstrass.negY x₂ y₂
  · rw [if_pos (hxy.mpr h), WeierstrassCurve.Affine.Point.add_of_Y_eq h.1 h.2]
  · have hs := residue_slope (mt hxy.mp h)
    simp only [residue_ofResidue] at hs
    rw [if_neg (mt hxy.mp h), WeierstrassCurve.Affine.Point.add_some h]
    simp only [affine.injEq, ← residue_inj, residue_sub, residue_mul, residue_ofResidue, hs,
      WeierstrassCurve.Affine.addX, WeierstrassCurve.Affine.addY,
      WeierstrassCurve.Affine.negAddY, negY_eq, weierstrass_a₁, weierstrass_a₂]
    constructor
    · ring
    · ring

/-! ### Multiples -/

/-- The sum of `k` copies of a point, added one after the other. -/
def copies : Nat → Point → Point
  | 0,     _ => .infinity
  | k + 1, p => (copies k p).add p

theorem copies_ofGroup (k : Nat) (P : Group) : copies k (ofGroup P) = ofGroup (k • P) := by
  induction k with
  | zero => rw [zero_nsmul]; rfl
  | succ k ih => rw [copies, ih, add_ofGroup, succ_nsmul]

/-- **Doubling and adding** along the binary digits of `k` gives the multiple by `k`. -/
theorem mul_ofGroup (k : Nat) (P : Group) : (ofGroup P).mul k = ofGroup (k • P) := by
  refine foldl_binaryDigits (R := fun v r => r = ofGroup (v • P)) (by rw [zero_nsmul]; rfl)
    (fun v r d h => ?_) k
  subst h
  cases d with
  | false =>
      rw [if_neg Bool.false_ne_true, add_ofGroup, Bool.toNat_false, add_zero, two_mul, add_nsmul]
  | true =>
      rw [if_pos rfl, add_ofGroup, add_ofGroup, Bool.toNat_true, succ_nsmul, two_mul, add_nsmul]

/-! ### Points of the curve -/

theorem nonsingular_of_onCurve {x y : FieldElement} (h : onCurve x y = true) :
    weierstrass.Nonsingular (residue x) (residue y) := by
  have e := congrArg residue (beq_iff_eq.mp h)
  simp only [cubic, residue_mul, residue_add, residue_ofNat] at e
  exact nonsingular_iff.mpr e

/-- **The points of the curve** are the points of the group other than infinity. -/
theorem onCurve_iff {x y : FieldElement} : onCurve x y = true ↔ ∃ P, ofGroup P = affine x y := by
  constructor
  · intro h
    refine ⟨.some _ _ (nonsingular_of_onCurve h), ?_⟩
    simp only [ofGroup, ofResidue_residue]
  · rintro ⟨_ | ⟨u, v, h⟩, e⟩
    · cases e
    · simp only [ofGroup, affine.injEq] at e
      obtain ⟨rfl, rfl⟩ := e
      refine beq_iff_eq.mpr (residue_injective ?_)
      simpa only [cubic, residue_mul, residue_add, residue_ofNat, residue_ofResidue]
        using nonsingular_iff.mp h

end Point

/-! ### The base point -/

theorem exists_ofGroup_eq_generator : ∃ P, Point.ofGroup P = generator :=
  Point.onCurve_iff.mp (by decide +kernel)

/-- The base point, in the group. -/
def base : Group := exists_ofGroup_eq_generator.choose

theorem ofGroup_base : Point.ofGroup base = generator := exists_ofGroup_eq_generator.choose_spec

/-- The multiple of the base point that is computed is the sum of its copies. -/
theorem mul_generator (k : Nat) : generator.mul k = Point.copies k generator := by
  rw [← ofGroup_base, Point.mul_ofGroup, Point.copies_ofGroup]

end CurveKeys.Curve

end
