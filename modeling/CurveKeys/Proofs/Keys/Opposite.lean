import CurveKeys.Proofs.Keys.Derivation

/-!
# Keys — opposite keys

The inverse of a point of the curve is its reflection in the first axis.  So scalars whose sum is a
multiple of the order derive keys that lie opposite to each other: they share the first coordinate,
and since no point has the second coordinate zero, the parities of the second ones differ.

* `Curve.Point.opposite_ofGroup`: the reflection is the inverse of the group.
* `PublicKey.IsSum.opposite`: the sum of a number that completes another to a multiple of the order.
* `PublicKey.OnCurve.tag_opposite`: the tags of two opposite keys differ in the lowest bit.
* `PublicKey.exists_derive_opposite`: what two such scalars derive.
* `PublicKey.derive_negated`: the key of a scalar and the key of the order less the scalar.
-/

namespace CurveKeys

namespace Curve

/-! ### The inverse of the group -/

/-- The reflection of a point in the first axis. -/
def Point.opposite : Point → Point
  | .infinity   => .infinity
  | .affine x y => .affine x (-y)

/-- **The reflection is the inverse of the group.** -/
theorem Point.opposite_ofGroup (P : Group) : (ofGroup P).opposite = ofGroup (-P) := by
  rcases P with _ | ⟨x, y, h⟩
  · rfl
  · have hy : -FieldElement.ofResidue y = FieldElement.ofResidue (weierstrass.negY x y) := by
      apply FieldElement.residue_injective
      rw [FieldElement.residue_neg, FieldElement.residue_ofResidue, FieldElement.residue_ofResidue,
        negY_eq]
    rw [WeierstrassCurve.Affine.Point.neg_some]
    exact congrArg (affine (FieldElement.ofResidue x)) hy

/-- The sums of two numbers that add up to a multiple of the order are opposite. -/
theorem copies_generator_opposite {m n : Nat} (h : order ∣ m + n) :
    Point.copies n generator = (Point.copies m generator).opposite := by
  have inverse : n • base = -(m • base) := by
    refine eq_neg_of_add_eq_zero_right ?_
    rw [← add_nsmul]
    exact nsmul_base_eq_zero_iff.mpr h
  rw [← ofGroup_base, Point.copies_ofGroup, Point.copies_ofGroup, Point.opposite_ofGroup, inverse]

end Curve

open Curve

namespace PublicKey

/-! ### Opposite keys -/

/-- The key of the opposite point, in the same form. -/
def opposite (k : PublicKey) : PublicKey :=
  { k with y := BitVec.ofNat 256 (prime - k.y.toNat) }

variable {k : PublicKey} {m n : Nat}

theorem opposite_ofCoordinates {c : Bool} {x y : FieldElement} (hy : y ≠ 0) :
    (ofCoordinates c (x, y)).opposite = ofCoordinates c (x, -y) := by
  rw [opposite, ofCoordinates, ofCoordinates, Coordinate.toNat_ofField, ← FieldElement.val_neg hy]
  rfl

/-- No key on the curve has the second coordinate zero. -/
theorem OnCurve.y_pos (h : k.OnCurve) : 0 < k.y.toNat := by
  obtain ⟨x, y, hc, e⟩ := h.exists_point
  rw [e]
  refine (Coordinate.toNat_ofField y).symm ▸ Nat.pos_of_ne_zero fun h₀ => ?_
  exact ne_zero_of_onCurve hc (Fin.ext h₀)

theorem toNat_y_opposite (k : PublicKey) : k.opposite.y.toNat = prime - k.y.toNat := by
  have hlt : prime - k.y.toNat < 2 ^ 256 := (Nat.sub_le _ _).trans_lt Coordinate.prime_lt
  rw [opposite, BitVec.toNat_ofNat, Nat.mod_eq_of_lt hlt]

/-- **The tags of two opposite keys** in compressed form differ in the lowest bit: the order of the
field is odd, so that one of the second coordinates is odd and the other is even. -/
theorem OnCurve.tag_opposite (h : k.OnCurve) (hc : k.compressed = true) :
    k.opposite.tag = k.tag ^^^ 1 := by
  have odd : prime % 2 = 1 := by decide
  have hle := h.y_lt.le
  have hpos := h.y_pos
  rw [tag, tag, k.toNat_y_opposite, show k.opposite.compressed = k.compressed from rfl, if_pos hc,
    if_pos hc]
  rcases Nat.mod_two_eq_zero_or_one k.y.toNat with e | e
  · rw [e, if_pos (by omega)]
    rfl
  · rw [e, if_neg (by omega)]
    rfl

/-- **The sum of the opposite number** is the opposite key. -/
theorem IsSum.opposite (hk : k.IsSum m) (h : order ∣ m + n) : k.opposite.IsSum n := by
  have hcurve := hk.onCurve
  obtain ⟨x, y, e, hxy⟩ := hk
  have hy : y ≠ 0 := by
    rintro rfl
    have hpos := hcurve.y_pos
    rw [hxy, ofCoordinates, Coordinate.toNat_ofField] at hpos
    exact lt_irrefl 0 hpos
  refine ⟨x, -y, ?_, ?_⟩
  · rw [copies_generator_opposite h, e]
    rfl
  · rw [hxy, opposite_ofCoordinates hy]
    rfl

/-- **Scalars that add up to a multiple of the order** derive opposite keys. -/
theorem exists_derive_opposite {d e : Scalar} (hdw : d.byteLength ≤ Scalar.maxDivided)
    (hew : e.byteLength ≤ Scalar.maxDivided) (hd : ¬ order ∣ d.value)
    (h : order ∣ d.value + e.value) :
    ∃ k, (derive d).result = .ok k ∧ (derive e).result = .ok k.opposite ∧ k.OnCurve := by
  have he : ¬ order ∣ e.value := fun he => hd ((Nat.dvd_add_left he).mp h)
  obtain ⟨k, hk, hkm, hkc⟩ := exists_derive hdw hd
  obtain ⟨l, hl, hlm, hlc⟩ := exists_derive hew he
  refine ⟨k, hk, ?_, hkm.onCurve⟩
  rw [hl, hlm.ext (hkm.opposite h) (hlc.trans hkc.symm)]

/-- **The key of the negated scalar.**  For a scalar in the range of private keys, the order less
the scalar derives the key with the same first coordinate and the second coordinate taken from the
order of the field.  In compressed form the two have the same 32 octets behind the tag, and of the
tags one is `02` and the other is `03`. -/
theorem derive_negated (d : Scalar) (h₁ : 1 ≤ d.value) (h : d.value < order) :
    ∃ k l, (derive d).result = .ok k ∧ (derive (.ofNat (order - d.value))).result = .ok l ∧
      l.x = k.x ∧ 0 < k.y.toNat ∧ k.y.toNat < prime ∧ l.y.toNat = prime - k.y.toNat ∧
      ∃ tag : UInt8, (tag = 0x02 ∨ tag = 0x03) ∧
        (k.withCompression true).encode = tag :: k.x.toBytes ∧
        (l.withCompression true).encode = (tag ^^^ 1) :: k.x.toBytes := by
  have hd : ¬ order ∣ d.value := Nat.not_dvd_of_pos_of_lt h₁ h
  have hsum : order ∣ d.value + (Scalar.ofNat (order - d.value)).value := by
    rw [Scalar.value_ofNat, Nat.add_sub_cancel' h.le]
  have hlt : (Scalar.ofNat (order - d.value)).value < order := by
    rw [Scalar.value_ofNat]
    exact Nat.sub_lt order_pos h₁
  obtain ⟨k, hk, hl, hcurve⟩ := exists_derive_opposite (byteLength_le_of_lt h)
    (byteLength_le_of_lt hlt) hd hsum
  refine ⟨k, k.opposite, hk, hl, rfl, hcurve.y_pos, hcurve.y_lt, k.toNat_y_opposite,
    (k.withCompression true).tag, (compressed_iff_tag _).mp rfl, ?_, ?_⟩
  · exact congrArg (_ :: ·) (List.append_nil _)
  · rw [← (hcurve.withCompression true).tag_opposite rfl]
    exact congrArg (_ :: ·) (List.append_nil _)

/-- The keys of 1 and of the order less 1 lie at the base point and opposite to it. -/
theorem derive_negated_one :
    1 ≤ (Scalar.ofNat 1).value ∧ (Scalar.ofNat 1).value < order ∧
      ∃ k l, (derive (.ofNat 1)).result = .ok k ∧ (derive (.ofNat (order - 1))).result = .ok l ∧
        (k.withCompression true).encode = 0x02 :: generatorCoordinates.1 ∧
        (l.withCompression true).encode = 0x03 :: generatorCoordinates.1 := by
  have hv : (Scalar.ofNat 1).value = 1 := Scalar.value_ofNat 1
  have hlt : (Scalar.ofNat 1).value < order := hv ▸ (by decide)
  obtain ⟨k, l, hk, hl, -, -, -, -, tag, -, ek, el⟩ := derive_negated (.ofNat 1) hv.ge hlt
  rw [hv] at hl
  have hbase : (k.withCompression true).encode = 0x02 :: generatorCoordinates.1 := by
    rw [result_derive (byteLength_le_of_lt hlt), hv] at hk
    rw [← Except.ok.inj hk]
    rfl
  refine ⟨hv.ge, hlt, k, l, hk, hl, hbase, ?_⟩
  obtain ⟨rfl, hx⟩ := List.cons.inj (ek.symm.trans hbase)
  rw [el, hx]
  rfl

end PublicKey

end CurveKeys
