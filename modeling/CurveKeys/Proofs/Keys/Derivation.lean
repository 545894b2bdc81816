import CurveKeys.Keys.Generate
import CurveKeys.Proofs.Curve.BaseOrder
import CurveKeys.Proofs.Keys.Encoding
import CurveKeys.Proofs.Scalar

/-!
# Keys — what is derived from a scalar

`Curve.Point.copies m generator` is the sum of `m` copies of the base point.  The public key of a
scalar is that sum for the number of the scalar (`PublicKey.IsSum`), and there is one for every
number that is not a multiple of the order.

* `PublicKey.IsSum.onCurve`, `PublicKey.IsSum.encode_inj_iff`: a sum lies on the curve, and its
  encoding tells its number up to the order.
* `PublicKey.result_derive`, `PublicKey.derive_eq`: the public key of a scalar that the arithmetic
  can divide, and of one in the range of private keys.
* `PublicKey.derive_failed`, `PublicKey.derive_told`: what becomes of wider ones.
* `PublicKey.derive_outcome`: derivation, in terms of the group.
* `KeyPair.ofScalar_refused`, `KeyPair.ofScalar_accepted`: the pair of a scalar, by its remainder:
  which remainders a policy refuses (`Policy.refusal?`), and what the pair is otherwise.
* `KeyPair.ofScalar_failed`, `KeyPair.ofScalar_told`: what becomes of wider scalars.
* `KeyPair.Matched`: the public key of a pair is derived from its private key.  A matched pair is
  determined by its number and its form (`KeyPair.Matched.ext`).
-/

namespace CurveKeys

namespace Curve

@[simp] theorem value_orderScalar : orderScalar.value = order := Scalar.value_ofNat order

theorem lt_orderScalar_iff {d : Scalar} : d < orderScalar ↔ d.value < order := by
  rw [Scalar.lt_iff, value_orderScalar]

theorem order_pos : 0 < order := by decide

theorem order_lt : order < 256 ^ PrivateKey.size := by decide

/-- Scalars below the order are none of the wide ones, and neither are the octets of private keys. -/
theorem byteLength_le_of_lt {d : Scalar} (h : d.value < order) : d.byteLength ≤ Scalar.maxDivided :=
  Scalar.byteLength_le_maxDivided (h.trans (by decide))

theorem byteLength_ofBytes_le {b : Bytes} (h : b.length ≤ PrivateKey.size) :
    (Scalar.ofBytes b).byteLength ≤ Scalar.maxDivided :=
  ((Scalar.byteLength_ofBytes_le b).trans h).trans (by decide)

theorem order_ne_zero : orderScalar.value ≠ 0 := value_orderScalar ▸ order_pos.ne'

theorem byteLength_orderScalar : orderScalar.byteLength ≤ Scalar.maxDivided :=
  Scalar.byteLength_le_maxDivided (by rw [value_orderScalar]; decide)

/-- What is left by the order. -/
theorem remainder_order {d : Scalar} (hd : d.byteLength ≤ Scalar.maxDivided) :
    d.remainder orderScalar = pure (.ofNat (d.value % order)) := by
  rw [Scalar.remainder_of_le hd byteLength_orderScalar order_ne_zero, value_orderScalar]

/-- The scalar of a remainder by the order is below the order. -/
theorem remainder_lt (n : Nat) : (Scalar.ofNat (n % order)).value < order := by
  rw [Scalar.value_ofNat]
  exact Nat.mod_lt n order_pos

theorem remainder_modEq (n : Nat) : (Scalar.ofNat (n % order)).value ≡ n [MOD order] := by
  rw [Scalar.value_ofNat]
  exact Nat.mod_modEq n order

theorem bitLength_orderScalar : orderScalar.bitLength = 256 := by
  refine le_antisymm (Scalar.bitLength_le_iff.mpr ?_) (Nat.lt_of_not_le fun h => ?_)
  · rw [value_orderScalar]; decide
  · exact absurd (Scalar.bitLength_le_iff.mp h) (by rw [value_orderScalar]; decide)

/-- The sum of `m` copies of the base point is infinity for the multiples of the order only. -/
theorem copies_generator_eq_infinity_iff {m : Nat} :
    Point.copies m generator = .infinity ↔ order ∣ m := by
  rw [← mul_generator, mul_generator_eq_infinity_iff]

end Curve

open Curve

/-! ### Public keys -/

namespace PublicKey

/-- `k` is the sum of `m` copies of the base point, in its own form. -/
def IsSum (m : Nat) (k : PublicKey) : Prop :=
  ∃ x y, Point.copies m generator = .affine x y ∧ k = ofCoordinates k.compressed (x, y)

theorem IsSum.withCompression {m : Nat} {k : PublicKey} (h : k.IsSum m) (c : Bool) :
    (k.withCompression c).IsSum m := by
  obtain ⟨x, y, hxy, hk⟩ := h
  refine ⟨x, y, hxy, ?_⟩
  rw [hk]
  rfl

/-- The number and the form determine the key. -/
theorem IsSum.ext {m : Nat} {k l : PublicKey} (hk : k.IsSum m) (hl : l.IsSum m)
    (h : k.compressed = l.compressed) : k = l := by
  obtain ⟨x, y, hxy, ek⟩ := hk
  obtain ⟨x', y', hxy', el⟩ := hl
  rw [hxy] at hxy'
  cases hxy'
  rw [ek, el, h]

/-- A sum that is not infinity is a point of the curve. -/
theorem IsSum.onCurve {m : Nat} {k : PublicKey} (h : k.IsSum m) : k.OnCurve := by
  obtain ⟨x, y, hxy, hk⟩ := h
  rw [← ofGroup_base, Point.copies_ofGroup] at hxy
  rw [hk]
  exact onCurve_ofCoordinates (Point.onCurve_iff.mpr ⟨_, hxy⟩)

theorem IsSum.congr {m n : Nat} {k : PublicKey} (hm : k.IsSum m) (h : m ≡ n [MOD order]) :
    k.IsSum n := by
  rwa [IsSum, copies_generator_inj_iff.mpr h] at hm

/-- The numbers of which a key is the sum leave the same remainder. -/
theorem IsSum.modEq {m n : Nat} {k : PublicKey} (hm : k.IsSum m) (hn : k.IsSum n) :
    m ≡ n [MOD order] := by
  obtain ⟨x, y, hxy, hk⟩ := hm
  obtain ⟨x', y', hxy', hk'⟩ := hn
  obtain ⟨rfl, rfl⟩ := ofCoordinates_inj (hk.symm.trans hk')
  exact copies_generator_inj_iff.mp (hxy.trans hxy'.symm)

/-- **Two sums in the same form** have the same encoding when their numbers leave the same
remainder. -/
theorem IsSum.encode_inj_iff {m n : Nat} {k l : PublicKey} (hk : k.IsSum m) (hl : l.IsSum n)
    (hc : k.compressed = l.compressed) : k.encode = l.encode ↔ m ≡ n [MOD order] := by
  rw [hk.onCurve.encode_inj_iff hl.onCurve]
  constructor
  · rintro rfl
    exact hk.modEq hl
  · intro h
    exact (hk.congr h).ext hl hc

/-- There is a sum, in either form, unless the number is a multiple of the order. -/
theorem exists_isSum {m : Nat} (h : ¬ order ∣ m) (c : Bool) :
    ∃ k : PublicKey, k.IsSum m ∧ k.compressed = c := by
  rcases e : Point.copies m generator with _ | ⟨x, y⟩
  · exact absurd (copies_generator_eq_infinity_iff.mp e) h
  · exact ⟨ofCoordinates c (x, y), ⟨x, y, e, rfl⟩, rfl⟩

/-- A scalar of at most 256 bits stays as it is, and nothing is reported. -/
theorem shorten_eq {d : Scalar} (h : d.value < 2 ^ 256) : shorten d = pure d := by
  rw [shorten, if_neg]
  rw [bitLength_orderScalar, Nat.not_lt]
  exact Scalar.bitLength_le_iff.mpr h

/-- A scalar that is no smaller comes to its remainder, if there is one. -/
theorem result_shorten {d : Scalar} (h : 2 ^ 256 ≤ d.value) :
    (shorten d).result = ((d.remainder orderScalar).mapError KeyError.failed).result := by
  have hlong : orderScalar.bitLength < d.bitLength := by
    rw [bitLength_orderScalar]
    exact Nat.lt_of_not_le fun hle => Nat.not_lt.mpr h (Scalar.bitLength_le_iff.mp hle)
  rw [shorten, if_pos hlong, Traced.result_bind]
  cases ((d.remainder orderScalar).mapError KeyError.failed).result <;> rfl

/-- What is multiplied leaves the remainder of the scalar, whether it is reduced or not. -/
theorem exists_shorten {d : Scalar} (hd : d.byteLength ≤ Scalar.maxDivided) :
    ∃ r, (shorten d).result = .ok r ∧ r.value < 2 ^ 256 ∧ r.value ≡ d.value [MOD order] := by
  rcases Nat.lt_or_ge d.value (2 ^ 256) with h | h
  · exact ⟨d, congrArg Traced.result (shorten_eq h), h, rfl⟩
  · refine ⟨.ofNat (d.value % order), ?_, (remainder_lt _).trans order_lt, remainder_modEq _⟩
    rw [result_shorten h, remainder_order hd]
    rfl

/-- What is multiplied has at most 32 octets, so the arithmetic takes it as it is. -/
theorem result_derive_of_shorten {d r : Scalar} (hr : (shorten d).result = .ok r)
    (h : r.value < 2 ^ 256) :
    (derive d).result =
      match Point.copies r.value generator with
      | .infinity   => .error (.invalidKey .multipleOfOrder)
      | .affine x y => .ok (ofCoordinates false (x, y)) := by
  have hw : r.byteLength ≤ 32 := Scalar.byteLength_le_iff.mpr h
  rw [derive, Traced.result_bind, hr, ← mul_generator]
  show Traced.result (r.held.mapError KeyError.failed >>= _) = _
  rw [Scalar.held_of_le (hw.trans (by decide)), Traced.mapError_pure, Traced.pure_bind]
  cases generator.mul r.value with
  | infinity => rfl
  | affine x y => rfl

/-- **The public key of a scalar** that the arithmetic can divide is the sum of as many copies of
the base point. -/
theorem result_derive {d : Scalar} (hd : d.byteLength ≤ Scalar.maxDivided) :
    (derive d).result =
      match Point.copies d.value generator with
      | .infinity   => .error (.invalidKey .multipleOfOrder)
      | .affine x y => .ok (ofCoordinates false (x, y)) := by
  obtain ⟨r, hr, hlt, h⟩ := exists_shorten hd
  rw [result_derive_of_shorten hr hlt, copies_generator_inj_iff.mpr h]

/-- Where the arithmetic is told of more octets than it can divide, there is no public key. -/
theorem derive_failed {d : Scalar} (hd : Scalar.maxDivided < d.toldLength) :
    ∃ failure note, d.remainder orderScalar = .fail failure note ∧
      (derive d).result = .error (.failed failure) := by
  obtain ⟨failure, note, hr⟩ := Scalar.remainder_of_lt (m := orderScalar) (.inl hd)
  have hw : 32 < d.byteLength := lt_of_lt_of_le (lt_trans (by decide) hd) d.toldLength_le
  refine ⟨failure, note, hr, ?_⟩
  rw [derive, Traced.result_bind, result_shorten (Scalar.le_value_of_lt hw), hr]
  rfl

/-- **It is what the arithmetic is told** of a scalar that counts. -/
theorem derive_told (d : Scalar) : (derive d.told).result = (derive d).result := by
  rcases Nat.lt_or_ge d.byteLength 4294967296 with hlt | hge
  · rw [Scalar.told_of_lt hlt]
  -- A scalar that is cut is reduced, while what is told of it may be multiplied as it is.
  have hlong : 32 < d.byteLength := lt_of_lt_of_le (by decide) hge
  have hd := result_shorten (Scalar.le_value_of_lt hlong)
  rcases Nat.lt_or_ge Scalar.maxDivided d.toldLength with hwide | hle
  · have ht : 32 < d.told.byteLength := by
      rw [Scalar.byteLength_told]
      exact lt_trans (by decide) hwide
    rw [derive, derive, Traced.result_bind, Traced.result_bind, hd,
      result_shorten (Scalar.le_value_of_lt ht), Scalar.remainder_told]
  · rw [← Scalar.byteLength_told] at hle
    rw [← Scalar.remainder_told, remainder_order hle] at hd
    rw [result_derive hle, result_derive_of_shorten hd ((remainder_lt _).trans order_lt),
      copies_generator_inj_iff.mpr (remainder_modEq _)]

/-- There is one for every number that is not a multiple of the order. -/
theorem exists_derive {d : Scalar} (hd : d.byteLength ≤ Scalar.maxDivided)
    (h : ¬ order ∣ d.value) :
    ∃ k, (derive d).result = .ok k ∧ k.IsSum d.value ∧ k.compressed = false := by
  obtain ⟨k, ⟨x, y, e, hk⟩, hc⟩ := exists_isSum h false
  refine ⟨k, ?_, ⟨x, y, e, hk⟩, hc⟩
  rw [result_derive hd, e, hk, hc]

/-- What is derived is a sum, for a scalar of any width. -/
theorem isSum_of_derive {d : Scalar} {k : PublicKey} (h : (derive d).result = .ok k) :
    k.IsSum d.told.value := by
  rcases Nat.lt_or_ge Scalar.maxDivided d.toldLength with hwide | hle
  · obtain ⟨_, _, -, hf⟩ := derive_failed hwide
    rw [h] at hf
    cases hf
  rw [← derive_told, result_derive (d.byteLength_told ▸ hle)] at h
  rcases e : Point.copies d.told.value generator with _ | ⟨x, y⟩
  · rw [e] at h
    cases h
  · rw [e] at h
    cases h
    exact ⟨x, y, e, rfl⟩

/-- It is the remainder of the number that counts. -/
theorem result_derive_congr {d e : Scalar} (hd : d.byteLength ≤ Scalar.maxDivided)
    (he : e.byteLength ≤ Scalar.maxDivided) (h : d.value ≡ e.value [MOD order]) :
    (derive d).result = (derive e).result := by
  rw [result_derive hd, result_derive he, copies_generator_inj_iff.mpr h]

/-- **The public key of a scalar** in the range of private keys; nothing is reported. -/
theorem derive_eq {d : Scalar} (h₀ : d.value ≠ 0) (h : d.value < order) :
    ∃ k, derive d = pure k ∧ k.IsSum d.value ∧ k.compressed = false := by
  have hne : generator.mul d.value ≠ .infinity := fun e =>
    absurd (Nat.le_of_dvd (Nat.pos_of_ne_zero h₀) (mul_generator_eq_infinity_iff.mp e))
      (Nat.not_le.mpr h)
  rcases e : generator.mul d.value with _ | ⟨x, y⟩
  · exact absurd e hne
  · refine ⟨ofCoordinates false (x, y), ?_, ⟨x, y, mul_generator _ ▸ e, rfl⟩, rfl⟩
    have hlt := h.trans order_lt
    have hw : d.byteLength ≤ 32 := Scalar.byteLength_le_iff.mpr hlt
    rw [derive, shorten_eq hlt, Traced.pure_bind, Scalar.held_of_le (hw.trans (by decide)),
      Traced.mapError_pure, Traced.pure_bind, e]

/-- **Derivation is the multiple of the base point** in the group, for a scalar of at most 67108848
octets: there is none for a multiple of the order, and otherwise it is in uncompressed form.  A
scalar and its remainder have the same.  A scalar of more octets has no remainder and derives
nothing; and of one that has more octets than 32 bits can count, only those that are counted are
looked at. -/
theorem derive_outcome (d : Scalar) :
    (d.byteLength ≤ Scalar.maxDivided →
      ((∃ cause, (derive d).result = .error (.invalidKey cause)) ↔ order ∣ d.value) ∧
      (¬ order ∣ d.value → ∃ x y k,
        Point.copies d.value generator = .affine x y ∧
        Point.ofGroup (d.value • base) = .affine x y ∧
        (derive d).result = .ok k ∧ k.compressed = false ∧
        k.x.toNat = x.val ∧ k.y.toNat = y.val) ∧
      ∃ r, (d.mod orderScalar).result = .ok r ∧ r.value = d.value % order ∧
        (derive r).result = (derive d).result) ∧
    (Scalar.maxDivided < d.byteLength → d.byteLength < 2 ^ 32 →
      ∃ failure, (d.mod orderScalar).result = .error (.failed failure) ∧
        (derive d).result = .error (.failed failure)) ∧
    (derive d.told).result = (derive d).result := by
  refine ⟨fun hw => ⟨⟨?_, ?_⟩, ?_, ?_⟩, fun hw hlt => ?_, derive_told d⟩
  · rintro ⟨cause, h⟩
    by_contra hd
    obtain ⟨k, hk, -⟩ := exists_derive hw hd
    rw [h] at hk
    cases hk
  · intro hd
    refine ⟨.multipleOfOrder, ?_⟩
    rw [result_derive hw, copies_generator_eq_infinity_iff.mpr hd]
  · intro hd
    obtain ⟨k, hk, ⟨x, y, hxy, e⟩, hc⟩ := exists_derive hw hd
    refine ⟨x, y, k, hxy, ?_, hk, hc, ?_, ?_⟩
    · rw [← Point.copies_ofGroup, ofGroup_base, hxy]
    · rw [e]
      exact Coordinate.toNat_ofField x
    · rw [e]
      exact Coordinate.toNat_ofField y
  · have hr := byteLength_le_of_lt (remainder_lt d.value)
    refine ⟨.ofNat (d.value % order), ?_, Scalar.value_ofNat _, ?_⟩
    · rw [Scalar.mod_eq order_ne_zero, remainder_order hw]
      rfl
    · exact result_derive_congr hr hw (remainder_modEq _)
  · obtain ⟨failure, note, hr, hd⟩ := derive_failed (Scalar.toldLength_of_lt hlt ▸ hw)
    refine ⟨failure, ?_, hd⟩
    rw [Scalar.mod_eq order_ne_zero, hr]
    rfl

/-- A scalar of too many octets, all of them `ff`. -/
theorem derive_outcome_wide :
    ∃ failure, (derive (.ofBytes (List.replicate 67108857 0xff))).result =
      .error (.failed failure) := by
  have hd := Scalar.maxDivided_lt_toldLength (b := List.replicate 67108857 0xff)
    (by rw [List.head?_replicate]; decide) List.length_replicate
  obtain ⟨failure, _, -, h⟩ := derive_failed hd
  exact ⟨failure, h⟩

/-- A scalar above the order that has no more bits is not reduced, and derives what 1 derives. -/
theorem derive_outcome_order_add_one :
    (Scalar.ofNat (order + 1)).byteLength ≤ Scalar.maxDivided ∧
    ∃ k r, (derive (.ofNat (order + 1))).result = .ok k ∧ k.compressed = false ∧
      r.value = 1 ∧ (derive r).result = .ok k := by
  have hv : (Scalar.ofNat (order + 1)).value = order + 1 := Scalar.value_ofNat _
  have hw : (Scalar.ofNat (order + 1)).byteLength ≤ Scalar.maxDivided :=
    Scalar.byteLength_ofNat_le (by decide)
  obtain ⟨-, hok, r, -, hr, hd⟩ := (derive_outcome (.ofNat (order + 1))).1 hw
  rw [hv] at hok hr
  obtain ⟨x, y, k, -, -, hk, hc, -⟩ := hok (by decide)
  exact ⟨hw, k, r, hk, hc, hr.trans (by decide), hd.trans hk⟩

end PublicKey

/-! ### Private keys -/

namespace PrivateKey

theorem value_ne_zero (k : PrivateKey) : k.scalar.value ≠ 0 := fun h => by
  have := Scalar.isZero_iff.mpr h
  rw [k.not_zero] at this
  cases this

theorem value_lt_order (k : PrivateKey) : k.scalar.value < order :=
  lt_orderScalar_iff.mp k.below_order

theorem scalar_injective : Function.Injective scalar := by
  rintro ⟨d, _, _⟩ ⟨d', _, _⟩ rfl
  rfl

/-- The octets of a private key denote its number. -/
theorem ofBytes_toBytes (k : PrivateKey) : Scalar.ofBytes k.toBytes = k.scalar :=
  Scalar.ofBytes_encode (k.value_lt_order.trans order_lt)

theorem value_toBytes (k : PrivateKey) : BigEndian.value k.toBytes = k.scalar.value := by
  rw [← Scalar.value_ofBytes, k.ofBytes_toBytes]

theorem value_toBytes_mod (k : PrivateKey) :
    BigEndian.value k.toBytes % order = k.scalar.value := by
  rw [k.value_toBytes, Nat.mod_eq_of_lt k.value_lt_order]

end PrivateKey

/-- Why a policy refuses a number below the order, if it does. -/
def Policy.refusal? (policy : Policy) (m : Nat) : Option InvalidKey :=
  if m = 0 then some .scalarZero
  else if policy.rejectOne = true ∧ m = 1 then some .scalarOne
  else none

theorem Policy.refusal?_eq_none_iff {policy : Policy} {m : Nat} :
    policy.refusal? m = none ↔ m ≠ 0 ∧ ¬ (policy.rejectOne = true ∧ m = 1) := by
  rw [refusal?]
  split_ifs with hz ho
  · exact iff_of_false nofun fun h => h.1 hz
  · exact iff_of_false nofun fun h => h.2 ho
  · exact iff_of_true rfl ⟨hz, ho⟩

theorem Policy.refusal?_lenient {m : Nat} (h : m ≠ 0) : Policy.lenient.refusal? m = none :=
  Policy.refusal?_eq_none_iff.mpr ⟨h, fun e => Bool.false_ne_true e.1⟩

namespace PrivateKey

theorem ofScalar_refused {d : Scalar} {policy : Policy} {cause : InvalidKey}
    (h : policy.refusal? d.value = some cause) : ofScalar d policy = cause.refusePrivate := by
  by_cases hz : d.value = 0
  · rw [Policy.refusal?, if_pos hz] at h
    obtain rfl := Option.some.inj h
    rw [ofScalar, parse, dif_pos (Scalar.isZero_iff.mpr hz)]
  rw [Policy.refusal?, if_neg hz] at h
  by_cases ho : policy.rejectOne = true ∧ d.value = 1
  · rw [if_pos ho] at h
    obtain rfl := Option.some.inj h
    rw [ofScalar, parse, dif_neg (mt Scalar.isZero_iff.mp hz), if_pos]
    rw [ho.1, Scalar.isOne_iff.mpr ho.2]
    rfl
  · rw [if_neg ho] at h
    cases h

theorem ofScalar_accepted {d : Scalar} {policy : Policy} (h : policy.refusal? d.value = none)
    (hlt : d.value < order) : ∃ k, ofScalar d policy = pure k ∧ k.scalar = d := by
  obtain ⟨hz, ho⟩ := Policy.refusal?_eq_none_iff.mp h
  have hz' : d.isZero = false := Bool.eq_false_iff.mpr (mt Scalar.isZero_iff.mp hz)
  have hb : d < orderScalar := lt_orderScalar_iff.mpr hlt
  refine ⟨⟨d, hz', hb⟩, ?_, rfl⟩
  rw [ofScalar, parse, dif_neg (mt Scalar.isZero_iff.mp hz), if_neg, dif_pos hb]
  rw [Bool.and_eq_true, Scalar.isOne_iff]
  exact ho

end PrivateKey

/-! ### Pairs -/

namespace KeyPair

/-- The public key is the sum of as many copies of the base point as the private key says. -/
def Matched (k : KeyPair) : Prop := k.publicKey.IsSum k.privateKey.scalar.value

/-- **A matched pair** is determined by its number and its form. -/
theorem Matched.ext {k l : KeyPair} (hk : k.Matched) (hl : l.Matched)
    (hd : k.privateKey.scalar.value = l.privateKey.scalar.value)
    (hc : k.isCompressed = l.isCompressed) : k = l := by
  have hp : k.privateKey = l.privateKey :=
    PrivateKey.scalar_injective (Scalar.value_injective hd)
  have hq : k.publicKey = l.publicKey := PublicKey.IsSum.ext hk (by rw [hd]; exact hl) hc
  cases k
  cases l
  cases hp
  cases hq
  rfl

/-- The remainder by the order, of a scalar that the arithmetic can divide. -/
theorem reduce_eq {d : Scalar} (hd : d.byteLength ≤ Scalar.maxDivided) :
    reduce d = pure (.ofNat (d.value % order)) := by
  by_cases h : d < orderScalar
  · have hv : Scalar.ofNat (d.value % order) = d := by
      rw [← Scalar.value_inj, Scalar.value_ofNat, Nat.mod_eq_of_lt (lt_orderScalar_iff.mp h)]
    rw [reduce, if_pos h, hv]
  · rw [reduce, if_neg h, remainder_order hd]
    rfl

/-- A scalar of more than 32 octets is not below the order. -/
theorem reduce_of_lt {d : Scalar} (hd : 32 < d.byteLength) :
    reduce d = (d.remainder orderScalar).mapError .failed := by
  have h : ¬ d < orderScalar := by
    rw [lt_orderScalar_iff, Nat.not_lt]
    exact order_lt.le.trans (Scalar.le_value_of_lt hd)
  rw [reduce, if_neg h]

theorem reduce_failed {d : Scalar} (hd : Scalar.maxDivided < d.toldLength) :
    ∃ failure note, reduce d = .fail (.failed failure) note := by
  obtain ⟨failure, note, hr⟩ := Scalar.remainder_of_lt (m := orderScalar) (.inl hd)
  refine ⟨failure, note, ?_⟩
  rw [reduce_of_lt (lt_of_lt_of_le (lt_trans (by decide) hd) d.toldLength_le), hr]
  rfl

theorem reduce_told (d : Scalar) : reduce d.told = reduce d := by
  rcases Nat.lt_or_ge d.byteLength 4294967296 with hlt | hge
  · rw [Scalar.told_of_lt hlt]
  rw [reduce_of_lt (lt_of_lt_of_le (by decide) hge), ← Scalar.remainder_told]
  rcases Nat.lt_or_ge Scalar.maxDivided d.told.byteLength with hwide | hle
  · rw [reduce_of_lt (lt_trans (by decide) hwide)]
  · rw [reduce_eq hle, remainder_order hle]
    rfl

theorem ofScalar_refused {d : Scalar} {c : Bool} {policy : Policy} {cause : InvalidKey}
    (hd : d.byteLength ≤ Scalar.maxDivided) (h : policy.refusal? (d.value % order) = some cause) :
    ofScalar (some d) c policy = cause.refusePrivate := by
  rw [← Scalar.value_ofNat (d.value % order)] at h
  rw [ofScalar, reduce_eq hd, Traced.pure_bind, PrivateKey.ofScalar_refused h]
  rfl

/-- **The pair of a scalar** whose remainder is not refused. -/
theorem ofScalar_accepted {d : Scalar} (c : Bool) {policy : Policy}
    (hd : d.byteLength ≤ Scalar.maxDivided) (h : policy.refusal? (d.value % order) = none) :
    ∃ k, ofScalar (some d) c policy = pure k ∧ k.Matched ∧
      k.privateKey.scalar.value = d.value % order ∧ k.isCompressed = c := by
  have hv := Scalar.value_ofNat (d.value % order)
  rw [← hv] at h
  obtain ⟨p, hp, hpd⟩ := PrivateKey.ofScalar_accepted h (remainder_lt _)
  obtain ⟨q, hq, hqm, -⟩ := PublicKey.derive_eq p.value_ne_zero p.value_lt_order
  refine ⟨⟨p, q.withCompression c⟩, ?_, hqm.withCompression c, ?_, rfl⟩
  · rw [ofScalar, reduce_eq hd, Traced.pure_bind, hp, Traced.pure_bind, hq, Traced.pure_bind]
  · rw [hpd, hv]

/-- Where the arithmetic is told of more octets than it can divide, there is no pair. -/
theorem ofScalar_failed {d : Scalar} (hd : Scalar.maxDivided < d.toldLength) :
    ∃ failure note, ∀ c policy,
      ofScalar (some d) c policy = .fail (.failed failure) note := by
  obtain ⟨failure, note, hr⟩ := reduce_failed hd
  refine ⟨failure, note, fun c policy => ?_⟩
  rw [ofScalar, hr]
  rfl

/-- **It is what the arithmetic is told** of a scalar that counts. -/
theorem ofScalar_told (d : Scalar) (c : Bool) (policy : Policy) :
    ofScalar (some d.told) c policy = ofScalar (some d) c policy := by
  rw [ofScalar, ofScalar, reduce_told]

/-- The arithmetic fails where it is told of too many octets, and nowhere else. -/
theorem ofScalar_failed_iff {d : Scalar} {c : Bool} {policy : Policy} :
    (∃ failure, (ofScalar (some d) c policy).result = .error (.failed failure)) ↔
      Scalar.maxDivided < d.toldLength := by
  constructor
  · rintro ⟨failure, h⟩
    refine Nat.lt_of_not_le fun hle => ?_
    rw [← Scalar.byteLength_told] at hle
    rw [← ofScalar_told] at h
    rcases hr : policy.refusal? (d.told.value % order) with _ | cause
    · obtain ⟨k, hk, -⟩ := ofScalar_accepted c hle hr
      rw [hk] at h
      cases h
    · rw [ofScalar_refused hle hr] at h
      cases h
  · intro hwide
    obtain ⟨failure, _, h⟩ := ofScalar_failed hwide
    exact ⟨failure, congrArg Traced.result (h c policy)⟩

/-- There is a pair of every number in the range of private keys, in either form. -/
theorem exists_ofScalar_ofNat {n : Nat} (h₀ : n ≠ 0) (h : n < order) (c : Bool) :
    ∃ k, (ofScalar (some (.ofNat n)) c .lenient).result = .ok k ∧ k.Matched ∧
      k.privateKey.scalar.value = n ∧ k.isCompressed = c := by
  have hv : (Scalar.ofNat n).value % order = n := by
    rw [Scalar.value_ofNat, Nat.mod_eq_of_lt h]
  have hw := byteLength_le_of_lt ((Scalar.value_ofNat n).symm ▸ h)
  obtain ⟨k, hk, hm, hkv, hc⟩ := ofScalar_accepted c hw (hv.symm ▸ Policy.refusal?_lenient h₀)
  exact ⟨k, congrArg Traced.result hk, hm, hkv.trans hv, hc⟩

theorem ofBytes_refused {b : Bytes} {c : Bool} {policy : Policy} {cause : InvalidKey}
    (hb : (Scalar.ofBytes b).byteLength ≤ Scalar.maxDivided)
    (h : policy.refusal? (BigEndian.value b % order) = some cause) :
    ofBytes b c policy = cause.refusePrivate := by
  rw [← Scalar.value_ofBytes] at h
  exact ofScalar_refused hb h

/-- **The pair of an octet string**, by the number that it denotes. -/
theorem ofBytes_accepted {b : Bytes} (c : Bool) {policy : Policy}
    (hb : (Scalar.ofBytes b).byteLength ≤ Scalar.maxDivided)
    (h : policy.refusal? (BigEndian.value b % order) = none) :
    ∃ k, ofBytes b c policy = pure k ∧ k.Matched ∧
      k.privateKey.scalar.value = BigEndian.value b % order ∧ k.isCompressed = c := by
  rw [← Scalar.value_ofBytes] at h ⊢
  exact ofScalar_accepted c hb h

end KeyPair

end CurveKeys
