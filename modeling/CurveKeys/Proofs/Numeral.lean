import Mathlib.Data.Nat.Size
import CurveKeys.Proofs.Bytes.Hex
import CurveKeys.Proofs.Scalar

/-!
# Numeral — scalars are a model of the natural numbers

Octets, words, hexadecimal texts and remainders all come to a scalar whose magnitude is the
shortest string for the number that was meant, and what is asked of a scalar is answered as for
that number: equality, order, binary digits, remainder, and its octets at any width.

* `BigEndian.Shortest`: a string denotes a number and begins with no zero.
* `Hex.number`, `Hex.IsNumeral`: the number a hexadecimal text denotes, and which texts denote one.
* `Scalar.shortest_iff`: a magnitude is the shortest string for a number, that of the scalar.
* `Scalar.ofHex_eq`, `Scalar.ofHex_toHex`: texts that are read, and reading what is written.
* `Scalar.operations_agree`: the operations side by side with those on numbers.
-/

namespace CurveKeys.BigEndian

/-- `b` denotes `n` and has no zero in front. -/
structure Shortest (n : Nat) (b : Bytes) : Prop where
  leading : b.head? ≠ some 0
  denotes : value b = n

end CurveKeys.BigEndian

namespace CurveKeys.Hex

/-- The number a run of hexadecimal digits denotes; what is no digit counts as zero. -/
def number : Bytes → Nat
  | []        => 0
  | c :: rest => ((value? c).getD 0).toNat * 16 ^ rest.length + number rest

/-- Apart from its prefix, a text is an even number of hexadecimal digits, possibly none. -/
def IsNumeral (text : Bytes) : Prop :=
  (digits text).length % 2 = 0 ∧ (digits text).all (fun c => (value? c).isSome) = true

instance (text : Bytes) : Decidable (IsNumeral text) := inferInstanceAs (Decidable (_ ∧ _))

theorem exists_decode_iff {text : Bytes} : (∃ b, decode text = .ok b) ↔ IsNumeral text :=
  (exists_congr fun _ => decode_eq_ok_iff).trans exists_decodePairs_iff

/-- Octets that are read from digits, two for each, denote what the digits denote. -/
theorem value_decodePairs {offset : Nat} {text b : Bytes} (h : decodePairs offset text = .ok b) :
    text.length = 2 * b.length ∧ BigEndian.value b = number text := by
  induction offset, text using decodePairs.induct generalizing b with
  | case1 offset hi lo rest _ _ _ _ ih =>
      obtain ⟨x, y, b, hx, hy, hb, rfl⟩ := decodePairs_cons_eq_ok_iff.mp h
      obtain ⟨hl, hv⟩ := ih hb
      have hpow : (256 : Nat) ^ b.length = 16 ^ rest.length := by
        rw [hl, pow_mul]
        rfl
      refine ⟨by rw [List.length_cons, List.length_cons, List.length_cons, hl]; ring, ?_⟩
      calc BigEndian.value ((x <<< 4 ||| y) :: b)
          = (x.toNat * 16 + y.toNat) * 16 ^ rest.length + number rest := by
            rw [BigEndian.value_cons, toNat_high_or_low (value?_lt hx) (value?_lt hy), hpow, hv]
        _ = x.toNat * 16 ^ (rest.length + 1) + (y.toNat * 16 ^ rest.length + number rest) := by
            ring
        _ = number (hi :: lo :: rest) := by
            rw [number, number, hx, hy, List.length_cons]
            rfl
  | case2 offset hi lo rest hn =>
      obtain ⟨x, y, -, hx, hy, -⟩ := decodePairs_cons_eq_ok_iff.mp h
      exact absurd hy (hn x y hx)
  | case3 => cases h
  | case4 =>
      obtain rfl := Except.ok.inj h
      exact ⟨rfl, rfl⟩

theorem value_decode {text b : Bytes} (h : decode text = .ok b) :
    BigEndian.value b = number (digits text) :=
  (value_decodePairs (decode_eq_ok_iff.mp h)).2

end CurveKeys.Hex

namespace CurveKeys.Scalar

variable {a : Scalar}

/-- No scalar has a zero in front, so its value tells which number it is the string of. -/
theorem shortest_iff {n : Nat} : BigEndian.Shortest n a.magnitude ↔ a.value = n :=
  ⟨fun h => h.denotes, fun h => ⟨a.canonical, h⟩⟩

theorem value_ofUInt64 (w : UInt64) : (ofUInt64 w).value = w.toNat := by
  rw [ofUInt64, value_ofBytes, BigEndian.value_encode]
  exact Nat.mod_eq_of_lt w.toNat_lt

theorem mod_eq_error {m : Scalar} (h : m.value = 0) : (a.mod m).result = .error .zeroModulus :=
  congrArg Traced.result (if_pos (isZero_iff.mpr h))

/-- The remainder of scalars that the arithmetic can divide. -/
theorem exists_mod {m : Scalar} (ha : a.byteLength ≤ maxDivided) (hm : m.byteLength ≤ maxDivided)
    (h : m.value ≠ 0) :
    ∃ r, (a.mod m).result = .ok r ∧ BigEndian.Shortest (a.value % m.value) r.magnitude := by
  refine ⟨ofNat (a.value % m.value), ?_, shortest_iff.mpr (value_ofNat _)⟩
  rw [mod_eq h, remainder_of_le ha hm h]
  rfl

/-- Wider ones have none. -/
theorem exists_mod_failed {m : Scalar} (hw : maxDivided < a.toldLength ∨ maxDivided < m.toldLength)
    (h : m.value ≠ 0) : ∃ failure, (a.mod m).result = .error (.failed failure) := by
  obtain ⟨failure, note, hr⟩ := remainder_of_lt hw
  refine ⟨failure, ?_⟩
  rw [mod_eq h, hr]
  rfl

theorem bitLength_eq_size (a : Scalar) : a.bitLength = a.value.size :=
  le_antisymm (bitLength_le_iff.mpr (Nat.lt_size_self _))
    (Nat.size_le.mpr (bitLength_le_iff.mp le_rfl))

theorem ofBytes_magnitude (a : Scalar) : ofBytes a.magnitude = a :=
  value_inj.mp (value_ofBytes a.magnitude)

/-! ### Texts -/

theorem ofHex_eq {text : Bytes} (h : Hex.IsNumeral text) :
    ofHex text = .ok (ofNat (Hex.number (Hex.digits text))) := by
  obtain ⟨b, hb⟩ := Hex.exists_decode_iff.mpr h
  have e : ofBytes b = ofNat (Hex.number (Hex.digits text)) := by
    rw [← value_inj, value_ofBytes, value_ofNat, Hex.value_decode hb]
  rw [ofHex, hb, ← e]
  rfl

theorem exists_ofHex_error {text : Bytes} (h : ¬ Hex.IsNumeral text) :
    ∃ e, ofHex text = .error e := by
  cases hd : Hex.decode text with
  | ok b => exact absurd (Hex.exists_decode_iff.mp ⟨b, hd⟩) h
  | error e =>
      refine ⟨e, ?_⟩
      rw [ofHex, hd]
      rfl

/-- **What is written in hexadecimal is read back.** Zero has no digits and is written as two. -/
theorem ofHex_toHex (a : Scalar) : ofHex a.toHex = .ok a := by
  rw [toHex]
  split_ifs with h
  · have zero : ofBytes [0] = a := value_inj.mp (isZero_iff.mp h).symm
    rw [← zero]
    rfl
  · rw [ofHex, Hex.decode_encode]
    exact congrArg Except.ok (ofBytes_magnitude a)

/-- **The operations are those on numbers.** Each way to make a scalar gives the shortest string for
the number that was meant, and each question about scalars is one about their numbers.  For the
remainder they have at most 67108848 octets; there is none of wider ones, and of scalars that have
more octets than 32 bits can count it is the remainder of those that are counted. -/
theorem operations_agree (a b m : Scalar) (octets text : Bytes) (word : UInt64) (width : Nat) :
    BigEndian.Shortest (BigEndian.value octets) (ofBytes octets).magnitude
    ∧ BigEndian.Shortest word.toNat (ofUInt64 word).magnitude
    ∧ (Hex.IsNumeral text → ∃ r, ofHex text = .ok r
        ∧ BigEndian.Shortest (Hex.number (Hex.digits text)) r.magnitude)
    ∧ (¬ Hex.IsNumeral text → ∃ e, ofHex text = .error e)
    ∧ (m.value ≠ 0 → a.byteLength ≤ maxDivided → m.byteLength ≤ maxDivided →
        ∃ r, (a.mod m).result = .ok r
          ∧ BigEndian.Shortest (a.value % m.value) r.magnitude)
    ∧ (m.value = 0 → (a.mod m).result = .error .zeroModulus)
    ∧ (m.value ≠ 0 → a.byteLength < 2 ^ 32 → m.byteLength < 2 ^ 32 →
        maxDivided < a.byteLength ∨ maxDivided < m.byteLength →
        ∃ failure, (a.mod m).result = .error (.failed failure))
    ∧ (m.value ≠ 0 → a.mod m = (a.told.remainder m.told).mapError .failed)
    ∧ ((a == b) = true ↔ a.value = b.value)
    ∧ (a < b ↔ a.value < b.value)
    ∧ a.bitLength = a.value.size
    ∧ (a.encode width).length = width
    ∧ BigEndian.value (a.encode width) = a.value % 256 ^ width
    ∧ (a.byteLength ≤ width → ofBytes (a.encode width) = a)
    ∧ ofHex a.toHex = .ok a := by
  refine ⟨shortest_iff.mpr (value_ofBytes octets), shortest_iff.mpr (value_ofUInt64 word), ?_,
    exists_ofHex_error, fun h ha hm => exists_mod ha hm h, mod_eq_error, ?_, ?_,
    beq_iff_eq.trans value_inj.symm, lt_iff, bitLength_eq_size a, length_encode a width,
    value_encode a width, ?_, ofHex_toHex a⟩
  · exact fun h => ⟨_, ofHex_eq h, shortest_iff.mpr (value_ofNat _)⟩
  · intro h ha hm hw
    rw [← toldLength_of_lt ha, ← toldLength_of_lt hm] at hw
    exact exists_mod_failed hw h
  · intro h
    rw [remainder_told, remainder_told_right]
    exact mod_eq h
  · exact fun h => ofBytes_encode (byteLength_le_iff.mp h)

/-- A scalar of too many octets, all of them `ff`, by 11. -/
theorem operations_agree_wide :
    (ofBytes [11]).value ≠ 0 ∧
      ∃ failure, ((ofBytes (List.replicate 67108857 0xff)).mod (ofBytes [11])).result =
        .error (.failed failure) := by
  have ha := maxDivided_lt_toldLength (b := List.replicate 67108857 0xff)
    (by rw [List.head?_replicate]; decide) List.length_replicate
  have hm : (ofBytes [11]).value ≠ 0 := by decide
  exact ⟨hm, exists_mod_failed (.inl ha) hm⟩

theorem operations_agree_thousand :
    (∃ r, ofHex (Bytes.ascii "0x03E8") = .ok r ∧ BigEndian.Shortest 1000 r.magnitude)
    ∧ (∃ e, ofHex (Bytes.ascii "0x3E8") = .error e)
    ∧ (∃ r, ((ofNat 1000).mod (ofNat 300)).result = .ok r ∧ BigEndian.Shortest 100 r.magnitude)
    ∧ ((ofNat 1000).mod (ofNat 0)).result = .error .zeroModulus
    ∧ ofBytes ((ofNat 1000).encode 2) = ofNat 1000 := by
  obtain ⟨-, -, even, -, remainder, -, -, -, -, -, -, -, -, back, -⟩ :=
    operations_agree (ofNat 1000) (ofNat 0) (ofNat 300) [] (Bytes.ascii "0x03E8") 0 2
  obtain ⟨-, -, -, odd, -, zero, -⟩ :=
    operations_agree (ofNat 1000) (ofNat 0) (ofNat 0) [] (Bytes.ascii "0x3E8") 0 2
  refine ⟨even (by decide), odd (by decide), ?_, zero (value_ofNat 0), ?_⟩
  · have h := remainder (by rw [value_ofNat]; decide) (byteLength_ofNat_le (by decide))
      (byteLength_ofNat_le (by decide))
    rwa [value_ofNat, value_ofNat] at h
  · exact back (byteLength_le_iff.mpr (by rw [value_ofNat]; decide))

end CurveKeys.Scalar
