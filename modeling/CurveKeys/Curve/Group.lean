import CurveKeys.Curve.Field

/-!
# Curve — the group of points

The points of `y² = x³ + 7` and the point at infinity, under the chord-and-tangent law.

* `Point.add`: the law, by the slope of the chord or tangent.
* `Point.mul`: multiples, by doubling and adding along the binary digits of the factor.
-/

namespace CurveKeys.Curve

/-- A point of the plane, or the point at infinity. -/
inductive Point where
  | infinity
  | affine (x y : FieldElement)
  deriving DecidableEq

/-- The right-hand side of the curve equation. -/
def cubic (x : FieldElement) : FieldElement := x * x * x + 7

/-- The equation of the curve. -/
def onCurve (x y : FieldElement) : Bool := y * y == cubic x

namespace Point

/-- The slope of the line through two points, of the tangent if they are equal. -/
def slope (x₁ y₁ x₂ y₂ : FieldElement) : FieldElement :=
  if x₁ = x₂ then 3 * (x₁ * x₁) * (2 * y₁).inverse else (y₁ - y₂) * (x₁ - x₂).inverse

/-- The sum of two points: infinity is neutral, and opposite points, which share the
first coordinate, have sum infinity. -/
def add : Point → Point → Point
  | infinity,     q            => q
  | p,            infinity     => p
  | affine x₁ y₁, affine x₂ y₂ =>
    if x₁ = x₂ ∧ y₁ = -y₂ then infinity
    else
      let m := slope x₁ y₁ x₂ y₂
      let x := m * m - x₁ - x₂
      affine x (m * (x₁ - x) - y₁)

/-- The sum of `k` copies of a point. -/
def mul (k : Nat) (p : Point) : Point :=
  (binaryDigits k).foldl (fun r d => if d then (r.add r).add p else r.add r) infinity

end Point

/-- The base point. -/
def generator : Point :=
  .affine 0x79be667ef9dcbbac55a06295ce870b07029bfcdb2dce28d959f2815b16f81798
    0x483ada7726a3c4655da4fbfc0e1108a8fd17b448a68554199c47d08ffb10d4b8

/-- The order of the base point. -/
def order : Nat := 0xfffffffffffffffffffffffffffffffebaaedce6af48a03bbfd25e8cd0364141

end CurveKeys.Curve
