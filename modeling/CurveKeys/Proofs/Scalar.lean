import CurveKeys.Proofs.Bytes.BigEndian
import CurveKeys.Scalar

/-!
# Scalar — scalars are numbers

`Scalar.value` is a bijection with the natural numbers, and the operations on magnitudes are those
on numbers.

* `value_inj`, `value_ofBytes`, `value_ofNat`: each number has exactly one scalar.
* `lt_iff`: the comparison of magnitudes, shorter ones first, is the order of the numbers.
* `held_told`, `remainder_told`: the arithmetic sees of a scalar only what it is told of it.
* `remainder_of_le`, `remainder_of_lt`: the remainder is that of the numbers, up to a width.
* `encode_eq`, `ofBytes_encode`: the fixed-width encoding, and reading it back.
* `byteLength_le_iff`, `bitLength_le_iff`: how many octets and binary digits a number takes.
-/

namespace CurveKeys.Scalar

/-- A scalar that is not zero begins with an octet that is not. -/
theorem magnitude_cases (a : Scalar) :
    a.magnitude = [] ∨ ∃ x b, a.magnitude = x :: b ∧ x ≠ 0 := by
  rcases h : a.magnitude with _ | ⟨x, b⟩
  · exact .inl rfl
  · refine .inr ⟨x, b, rfl, fun hx => a.canonical ?_⟩
    rw [h, hx]
    rfl

/-! ### Sizes -/

theorem byteLength_le_iff {a : Scalar} {w : Nat} : a.byteLength ≤ w ↔ a.value < 256 ^ w := by
  constructor
  · intro h
    exact lt_of_lt_of_le (BigEndian.value_lt _) (Nat.pow_le_pow_right (by decide) h)
  · intro h
    rcases a.magnitude_cases with e | ⟨x, b, e, hx⟩
    · rw [byteLength, e]
      exact Nat.zero_le w
    · rw [value, e] at h
      have hb := lt_of_le_of_lt (BigEndian.le_value_of_head_ne_zero hx) h
      rw [byteLength, e]
      exact (Nat.pow_lt_pow_iff_right (by decide)).mp hb

/-- A scalar of more than `w` octets is no number of `w` octets. -/
theorem le_value_of_lt {a : Scalar} {w : Nat} (h : w < a.byteLength) : 256 ^ w ≤ a.value :=
  Nat.le_of_not_lt fun hv => Nat.not_lt.mpr (byteLength_le_iff.mpr hv) h

theorem bitLength_le_iff {a : Scalar} {n : Nat} : a.bitLength ≤ n ↔ a.value < 2 ^ n := by
  rcases a.magnitude_cases with e | ⟨x, b, e, hx⟩
  · simp [bitLength, value, e]
  have hx₀ : x.toNat ≠ 0 := fun h => hx (UInt8.toNat_inj.mp h)
  have hb := BigEndian.value_lt b
  simp only [bitLength, value, e, BigEndian.value_cons]
  rw [show (256 : Nat) ^ b.length = 2 ^ (b.length * 8) by rw [mul_comm, pow_mul]; rfl] at hb ⊢
  constructor
  · intro h
    have top : x.toNat < 2 ^ (x.toNat.log2 + 1) := Nat.lt_log2_self
    calc x.toNat * 2 ^ (b.length * 8) + BigEndian.value b
        < 2 ^ (x.toNat.log2 + 1) * 2 ^ (b.length * 8) + 0 := Positional.mul_add_lt_mul_add hb top
      _ = 2 ^ (b.length * 8 + (x.toNat.log2 + 1)) := by rw [add_zero, ← pow_add, add_comm]
      _ ≤ 2 ^ n := Nat.pow_le_pow_right (by decide) h
  · intro h
    have top : 2 ^ x.toNat.log2 ≤ x.toNat := Nat.log2_self_le hx₀
    have low : 2 ^ (b.length * 8 + x.toNat.log2) < 2 ^ n := by
      calc 2 ^ (b.length * 8 + x.toNat.log2)
          = 2 ^ x.toNat.log2 * 2 ^ (b.length * 8) := by rw [← pow_add, add_comm]
        _ ≤ x.toNat * 2 ^ (b.length * 8) := Nat.mul_le_mul_right _ top
        _ ≤ x.toNat * 2 ^ (b.length * 8) + BigEndian.value b := Nat.le_add_right _ _
        _ < 2 ^ n := h
    exact (Nat.pow_lt_pow_iff_right (by decide)).mp low

/-! ### Equality and order -/

/-- **Each number has one scalar.** -/
theorem value_injective : Function.Injective value := by
  intro a b h
  have hl : a.byteLength = b.byteLength :=
    le_antisymm (byteLength_le_iff.mpr (h ▸ BigEndian.value_lt _))
      (byteLength_le_iff.mpr (h ▸ BigEndian.value_lt _))
  rcases a with ⟨s, hs⟩
  rcases b with ⟨t, ht⟩
  obtain rfl : s = t := BigEndian.value_inj_of_length hl h
  rfl

theorem value_inj {a b : Scalar} : a.value = b.value ↔ a = b := value_injective.eq_iff

@[simp] theorem value_ofBytes (b : Bytes) : (ofBytes b).value = BigEndian.value b :=
  BigEndian.value_dropWhile_zero b

@[simp] theorem value_ofNat (n : Nat) : (ofNat n).value = n := by
  rw [ofNat, value_ofBytes, BigEndian.value_encode_octetCount]

/-- **The comparison of magnitudes** is the order of the numbers. -/
theorem lt_iff {a b : Scalar} : a < b ↔ a.value < b.value := by
  show a.byteLength < b.byteLength ∨ a.byteLength = b.byteLength ∧ a.magnitude < b.magnitude ↔ _
  rcases lt_trichotomy a.byteLength b.byteLength with h | h | h
  · refine iff_of_true (.inl h) (lt_of_lt_of_le (BigEndian.value_lt _) ?_)
    exact Nat.le_of_not_lt fun hb => Nat.not_le_of_lt h (byteLength_le_iff.mpr hb)
  · simp only [h, Nat.lt_irrefl, false_or, true_and]
    exact BigEndian.lt_iff_value_lt h
  · refine iff_of_false (by rintro (h' | ⟨h', -⟩) <;> omega) (not_lt_of_ge ?_)
    refine le_of_lt (lt_of_lt_of_le (BigEndian.value_lt _) ?_)
    exact Nat.le_of_not_lt fun ha => Nat.not_le_of_lt h (byteLength_le_iff.mpr ha)

theorem isZero_iff {a : Scalar} : a.isZero = true ↔ a.value = 0 := by
  rw [isZero, List.isEmpty_iff, ← List.length_eq_zero_iff]
  exact Nat.le_zero.symm.trans ((byteLength_le_iff (w := 0)).trans Nat.lt_one_iff)

theorem isOne_iff {a : Scalar} : a.isOne = true ↔ a.value = 1 := by
  have one : (⟨[1], by decide⟩ : Scalar).value = 1 := rfl
  rw [← one, value_inj, isOne, beq_iff_eq]
  cases a
  exact (Scalar.mk.injEq _ _ _ _).symm.to_iff

/-! ### What the arithmetic is told -/

variable {a m : Scalar}

theorem toldLength_le (a : Scalar) : a.toldLength ≤ a.byteLength := Nat.mod_le _ _

@[simp] theorem byteLength_told (a : Scalar) : a.told.byteLength = a.toldLength := by
  show (a.magnitude.take a.toldLength).length = a.toldLength
  rw [List.length_take]
  exact Nat.min_eq_left a.toldLength_le

theorem toldLength_of_lt (h : a.byteLength < 4294967296) : a.toldLength = a.byteLength :=
  Nat.mod_eq_of_lt h

/-- A scalar of fewer octets than a word of 32 bits can count is told as it is. -/
theorem told_of_lt (h : a.byteLength < 4294967296) : a.told = a := by
  have ht : a.magnitude.take a.toldLength = a.magnitude := by
    rw [toldLength_of_lt h]
    exact List.take_length
  cases a
  exact (Scalar.mk.injEq _ _ _ _).mpr ht

theorem toldLength_lt (a : Scalar) : a.toldLength < 4294967296 := Nat.mod_lt _ (by decide)

theorem told_told (a : Scalar) : a.told.told = a.told :=
  told_of_lt (a.byteLength_told ▸ a.toldLength_lt)

theorem toldLength_told (a : Scalar) : a.told.toldLength = a.toldLength := by
  rw [← byteLength_told, told_told, byteLength_told]

theorem byteLength_ofBytes_le (b : Bytes) : (ofBytes b).byteLength ≤ b.length :=
  (List.dropWhile_sublist _).length_le

theorem byteLength_ofBytes {b : Bytes} (h : b.head? ≠ some 0) :
    (ofBytes b).byteLength = b.length := by
  cases b with
  | nil => rfl
  | cons top rest =>
      have ht : ¬ (top == 0) = true := fun e => h (congrArg some (beq_iff_eq.mp e))
      show ((top :: rest).dropWhile (· == 0)).length = _
      rw [List.dropWhile_cons_of_neg (p := (· == 0)) ht]

/-- One octet more than can be held: these are all counted. -/
theorem maxDivided_lt_toldLength {b : Bytes} (h : b.head? ≠ some 0) (hl : b.length = maxHeld + 1) :
    maxDivided < (ofBytes b).toldLength := by
  have hb : (ofBytes b).byteLength = maxHeld + 1 := (byteLength_ofBytes h).trans hl
  have hlt : (ofBytes b).byteLength < 4294967296 := by
    rw [hb]
    decide
  rw [toldLength_of_lt hlt, hb]
  decide

/-- A number of at most 64 octets is none of the wide ones. -/
theorem byteLength_le_maxDivided (h : a.value < 256 ^ 64) : a.byteLength ≤ maxDivided :=
  (byteLength_le_iff.mpr h).trans (by decide)

theorem byteLength_ofNat_le {n : Nat} (h : n < 256 ^ 64) : (ofNat n).byteLength ≤ maxDivided :=
  byteLength_le_maxDivided ((value_ofNat n).symm ▸ h)

/-! ### Remainders -/

/-- **The arithmetic sees of a scalar** what it is told of it. -/
theorem held_told (a : Scalar) : a.told.held = a.held := by
  rw [held, held, toldLength_told, told_told]

theorem remainder_told (a m : Scalar) : a.told.remainder m = a.remainder m := by
  rw [remainder, remainder, held_told]

theorem remainder_told_right (a m : Scalar) : a.remainder m.told = a.remainder m := by
  rw [remainder, remainder, held_told]

theorem held_of_le (h : a.byteLength ≤ maxHeld) : a.held = pure a := by
  have hlt : a.byteLength < 4294967296 := lt_of_le_of_lt h (by decide)
  rw [held, if_neg (Nat.not_lt.mpr (a.toldLength_le.trans h)), told_of_lt hlt]

/-- **The remainder** is that of the numbers, up to a width. -/
theorem remainder_of_le (ha : a.byteLength ≤ maxDivided) (hm : m.byteLength ≤ maxDivided)
    (h : m.value ≠ 0) : a.remainder m = pure (ofNat (a.value % m.value)) := by
  have hle : maxDivided ≤ maxHeld := by decide
  have hw : ¬ (maxDivided < a.byteLength ∨ maxDivided < m.byteLength) :=
    not_or.mpr ⟨Nat.not_lt.mpr ha, Nat.not_lt.mpr hm⟩
  rw [remainder, held_of_le (ha.trans hle), held_of_le (hm.trans hle), Traced.pure_bind,
    Traced.pure_bind, if_neg (mt isZero_iff.mp h), if_neg hw]

theorem mod_eq (h : m.value ≠ 0) : a.mod m = (a.remainder m).mapError .failed :=
  if_neg (mt isZero_iff.mp h)

/-- **There is no remainder** where the arithmetic is told of more octets than it can divide. -/
theorem remainder_of_lt (h : maxDivided < a.toldLength ∨ maxDivided < m.toldLength) :
    ∃ failure note, a.remainder m = .fail failure note := by
  by_cases ha : maxHeld < a.toldLength
  · rw [remainder, held, if_pos ha]
    exact ⟨_, _, rfl⟩
  by_cases hm : maxHeld < m.toldLength
  · rw [remainder, held, held, if_neg ha, if_pos hm, Traced.pure_bind]
    exact ⟨_, _, rfl⟩
  rw [← byteLength_told, ← byteLength_told] at h
  rw [remainder, held, held, if_neg ha, if_neg hm, Traced.pure_bind, Traced.pure_bind, if_pos h]
  split_ifs <;> exact ⟨_, _, rfl⟩

/-! ### Fixed-width encodings -/

/-- The encoding on magnitudes is the encoding of the number. -/
theorem encode_eq (a : Scalar) (w : Nat) : a.encode w = BigEndian.encode w a.value := by
  apply BigEndian.value_inj_of_length
  · rw [length_encode, BigEndian.length_encode]
  rw [BigEndian.value_encode, encode, BigEndian.value_append, BigEndian.value_replicate_zero,
    zero_mul, zero_add]
  -- what was cut off is a multiple of `256 ^ w`
  have split := BigEndian.value_append (a.magnitude.take (a.byteLength - w))
    (a.magnitude.drop (a.byteLength - w))
  have hlt := BigEndian.value_lt (a.magnitude.drop (a.byteLength - w))
  rw [List.take_append_drop] at split
  rcases Nat.le_total a.byteLength w with h | h
  · rw [Nat.sub_eq_zero_of_le h, List.drop_zero, Nat.mod_eq_of_lt (byteLength_le_iff.mp h)]
    rfl
  · have hl : (a.magnitude.drop (a.byteLength - w)).length = w := by
      rw [List.length_drop, ← byteLength, Nat.sub_sub_self h]
    rw [hl] at split hlt
    rw [value, split, Nat.mul_add_mod', Nat.mod_eq_of_lt hlt]

theorem value_encode (a : Scalar) (w : Nat) : BigEndian.value (a.encode w) = a.value % 256 ^ w := by
  rw [encode_eq, BigEndian.value_encode]

theorem ofBytes_encode {a : Scalar} {w : Nat} (h : a.value < 256 ^ w) :
    ofBytes (a.encode w) = a := by
  rw [← value_inj, value_ofBytes, value_encode, Nat.mod_eq_of_lt h]

end CurveKeys.Scalar
