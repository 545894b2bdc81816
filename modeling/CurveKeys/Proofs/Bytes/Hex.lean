import Mathlib.Data.List.Basic
import Mathlib.Tactic.IntervalCases
import CurveKeys.Bytes.Hex

/-!
# Bytes — hexadecimal text and octets

Each octet is read back from its two digits, so reading inverts writing.  The check of a text and
the reading of it are two scans of their own; they agree on every text.

* `decode_encode`: what is written is read back.
* `decodePairs_cons_eq_ok_iff`: one pair of digits and what follows it.
* `exists_decodePairs_iff`, `isValid_iff`: what is read, and that it is what passes the check.
* `isWritten_of_mem_encode`: the digits that are written.
-/

namespace CurveKeys.Hex

/-! ### Digits -/

theorem value?_digit {v : UInt8} (h : v < 16) : value? (digit v) = some v := by
  have hv : v.toNat < 16 := h
  obtain ⟨n, hn, rfl⟩ : ∃ n < 16, v = UInt8.ofNat n := ⟨v.toNat, hv, UInt8.ofNat_toNat.symm⟩
  interval_cases n <;> rfl

theorem high_lt (x : UInt8) : x >>> 4 < 16 := by
  have hx := x.toNat_lt
  rw [UInt8.lt_iff_toNat_lt, UInt8.toNat_shiftRight, Nat.shiftRight_eq_div_pow]
  exact Nat.div_lt_of_lt_mul hx

theorem low_lt (x : UInt8) : x &&& 0x0f < 16 := by
  rw [UInt8.lt_iff_toNat_lt, UInt8.toNat_and]
  exact Nat.lt_of_le_of_lt Nat.and_le_right (by decide)

/-- An octet is made of its two halves. -/
theorem high_or_low (x : UInt8) : x >>> 4 <<< 4 ||| x &&& 0x0f = x := by
  apply UInt8.eq_of_toBitVec_eq
  ext i hi
  interval_cases i <;> simp

/-- The value of a digit is below 16. -/
theorem value?_lt {c v : UInt8} (h : value? c = some v) : v < 16 := by
  -- Each range of digits ends less than sixteen above what is taken off.
  have below : ∀ first last base : UInt8, base ≤ first → last.toNat < base.toNat + 16 →
      first ≤ c ∧ c ≤ last → c - base < 16 := by
    rintro first last base hb hl ⟨h₁, h₂⟩
    have hc : c.toNat ≤ last.toNat := h₂
    rw [UInt8.lt_iff_toNat_lt, UInt8.toNat_sub_of_le c base (UInt8.le_trans hb h₁)]
    show c.toNat - base.toNat < 16
    omega
  unfold value? at h
  split_ifs at h with h₁ h₂ h₃
  · exact Option.some.inj h ▸ below 0x30 0x39 0x30 (by decide) (by decide) h₁
  · exact Option.some.inj h ▸ below 0x61 0x66 0x57 (by decide) (by decide) h₂
  · exact Option.some.inj h ▸ below 0x41 0x46 0x37 (by decide) (by decide) h₃

/-- The number an octet stands for when it is put together from its two halves. -/
theorem toNat_high_or_low {h l : UInt8} (hh : h < 16) (hl : l < 16) :
    (h <<< 4 ||| l).toNat = h.toNat * 16 + l.toNat := by
  have hh' : h.toNat < 16 := hh
  have hl' : l.toNat < 2 ^ 4 := hl
  have shift : (h <<< 4).toNat = h.toNat <<< 4 := by
    rw [UInt8.toNat_shiftLeft, show (4 : UInt8).toNat % 8 = 4 from rfl,
      Nat.mod_eq_of_lt (by rw [Nat.shiftLeft_eq]; omega)]
  rw [UInt8.toNat_or, shift, ← Nat.shiftLeft_add_eq_or_of_lt hl', Nat.shiftLeft_eq]

/-- A digit as it is written: a figure or a small letter. -/
def isWritten (c : UInt8) : Bool := 0x30 ≤ c && c ≤ 0x39 || 0x61 ≤ c && c ≤ 0x66

theorem isWritten_digit {v : UInt8} (h : v < 16) : isWritten (digit v) = true := by
  have hv : v.toNat < 16 := h
  obtain ⟨n, hn, rfl⟩ : ∃ n < 16, v = UInt8.ofNat n := ⟨v.toNat, hv, UInt8.ofNat_toNat.symm⟩
  interval_cases n <;> rfl

/-! ### Reading what is written -/

theorem encode_cons (x : UInt8) (b : Bytes) :
    encode (x :: b) = digit (x >>> 4) :: digit (x &&& 0x0f) :: encode b := rfl

theorem isWritten_of_mem_encode {c : UInt8} {b : Bytes} (h : c ∈ encode b) :
    isWritten c = true := by
  obtain ⟨x, -, hx⟩ := List.mem_flatMap.mp h
  rcases List.mem_pair.mp hx with rfl | rfl
  · exact isWritten_digit (high_lt x)
  · exact isWritten_digit (low_lt x)

theorem length_encode (b : Bytes) : (encode b).length = 2 * b.length := by
  induction b with
  | nil => rfl
  | cons x b ih =>
      rw [encode_cons, List.length_cons, List.length_cons, List.length_cons, ih]
      omega

/-- Nothing that is written looks like a prefix. -/
theorem digits_encode (b : Bytes) : digits (encode b) = encode b := by
  rcases b with _ | ⟨x, b⟩
  · rfl
  · have h := isWritten_digit (low_lt x)
    -- The letter of a prefix is no digit.
    have hne : ∀ {c : UInt8} {rest : Bytes}, isWritten c = false →
        digit (x >>> 4) :: digit (x &&& 0x0f) :: encode b ≠ 0x30 :: c :: rest := by
      intro c rest hc e
      rw [(List.cons.inj (List.cons.inj e).2).1, hc] at h
      cases h
    rw [encode_cons, digits]
    · exact fun rest => hne rfl
    · exact fun rest => hne rfl

theorem decodePairs_encode (offset : Nat) (b : Bytes) : decodePairs offset (encode b) = .ok b := by
  induction b generalizing offset with
  | nil => rfl
  | cons x b ih =>
      rw [encode_cons, decodePairs, value?_digit (high_lt x), value?_digit (low_lt x)]
      simp only [ih, high_or_low]
      rfl

/-- **What is written is read back.** -/
theorem decode_encode (b : Bytes) : decode (encode b) = .ok b := by
  rw [decode, digits_encode, length_encode, if_neg (by omega), decodePairs_encode]

theorem encode_injective : Function.Injective encode := by
  intro a b h
  have ha := decode_encode a
  rw [h, decode_encode] at ha
  exact (Except.ok.inj ha).symm

/-! ### The check -/

/-- An octet is read when both of its digits are, and what follows is. -/
theorem decodePairs_cons_eq_ok_iff {offset : Nat} {hi lo : UInt8} {rest b : Bytes} :
    decodePairs offset (hi :: lo :: rest) = .ok b ↔
      ∃ h l b', value? hi = some h ∧ value? lo = some l ∧
        decodePairs (offset + 2) rest = .ok b' ∧ (h <<< 4 ||| l) :: b' = b := by
  rw [decodePairs]
  cases hh : value? hi with
  | none => exact iff_of_false nofun (by rintro ⟨_, _, _, h, -⟩; cases h)
  | some h =>
      cases hl : value? lo with
      | none => exact iff_of_false nofun (by rintro ⟨_, _, _, -, h, -⟩; cases h)
      | some l =>
          cases decodePairs (offset + 2) rest with
          | error e => exact iff_of_false nofun (by rintro ⟨_, _, _, -, -, h, -⟩; cases h)
          | ok b' =>
              constructor
              · intro h'
                exact ⟨h, l, b', rfl, rfl, rfl, Except.ok.inj h'⟩
              · rintro ⟨_, _, _, ⟨⟩, ⟨⟩, ⟨⟩, rfl⟩
                rfl

/-- What is read is an even number of digits. -/
theorem exists_decodePairs_iff {offset : Nat} {text : Bytes} :
    (∃ b, decodePairs offset text = .ok b) ↔
      text.length % 2 = 0 ∧ text.all (fun c => (value? c).isSome) = true := by
  induction offset, text using decodePairs.induct with
  | case1 offset hi lo rest h l hl hh ih =>
      have hlen : (hi :: lo :: rest).length % 2 = rest.length % 2 := Nat.add_mod_right _ 2
      rw [hlen, List.all_cons, List.all_cons, hh, hl, Option.isSome_some, Option.isSome_some,
        Bool.true_and, Bool.true_and, ← ih]
      constructor
      · rintro ⟨b, hb⟩
        obtain ⟨_, _, b', -, -, hb', -⟩ := decodePairs_cons_eq_ok_iff.mp hb
        exact ⟨b', hb'⟩
      · rintro ⟨b', hb'⟩
        exact ⟨_, decodePairs_cons_eq_ok_iff.mpr ⟨h, l, b', hh, hl, hb', rfl⟩⟩
  | case2 offset hi lo rest hn =>
      refine iff_of_false ?_ ?_
      · rintro ⟨b, hb⟩
        obtain ⟨h, l, -, hh, hl, -⟩ := decodePairs_cons_eq_ok_iff.mp hb
        exact hn h l hh hl
      · rintro ⟨-, h⟩
        simp only [List.all_cons, Bool.and_eq_true, Option.isSome_iff_exists] at h
        obtain ⟨⟨h, hh⟩, ⟨l, hl⟩, -⟩ := h
        exact hn h l hh hl
  | case3 => exact iff_of_false nofun nofun
  | case4 => exact iff_of_true ⟨[], rfl⟩ ⟨rfl, rfl⟩

/-- Nothing is read from no digits only. -/
theorem decodePairs_eq_nil_iff {offset : Nat} {text : Bytes} :
    decodePairs offset text = .ok [] ↔ text = [] := by
  match text with
  | hi :: lo :: rest =>
      refine iff_of_false ?_ (List.cons_ne_nil _ _)
      intro h
      obtain ⟨_, _, _, -, -, -, hb⟩ := decodePairs_cons_eq_ok_iff.mp h
      exact List.cons_ne_nil _ _ hb
  | [_] => exact iff_of_false nofun (List.cons_ne_nil _ _)
  | [] => exact iff_of_true rfl rfl

/-- A text is read pair by pair: the count of its digits is checked first, but changes nothing. -/
theorem decode_eq_ok_iff {text b : Bytes} :
    decode text = .ok b ↔ decodePairs 0 (digits text) = .ok b := by
  rw [decode]
  split_ifs with hodd
  · refine iff_of_false nofun fun hb => ?_
    have heven := (exists_decodePairs_iff.mp ⟨b, hb⟩).1
    omega
  · exact Iff.rfl

theorem isValid_eq_true_iff {text : Bytes} :
    isValid text = true ↔ digits text ≠ [] ∧ ∃ b, decodePairs 0 (digits text) = .ok b := by
  rw [isValid, Bool.and_eq_true, Bool.and_eq_true, Bool.not_eq_true', beq_iff_eq, and_assoc,
    List.isEmpty_eq_false_iff, exists_decodePairs_iff]

/-- **A text passes the check** when it reads to at least one octet. -/
theorem isValid_iff {text : Bytes} :
    isValid text = true ↔ ∃ b, b ≠ [] ∧ decode text = .ok b := by
  rw [isValid_eq_true_iff]
  constructor
  · rintro ⟨hne, b, hb⟩
    refine ⟨b, ?_, decode_eq_ok_iff.mpr hb⟩
    rintro rfl
    exact hne (decodePairs_eq_nil_iff.mp hb)
  · rintro ⟨b, hne, hb⟩
    rw [decode_eq_ok_iff] at hb
    refine ⟨fun he => hne ?_, b, hb⟩
    rw [decodePairs_eq_nil_iff.mpr he] at hb
    exact (Except.ok.inj hb).symm

/-- All octets of a text that passes the check are digits, or the `x` in front of them. -/
theorem value?_of_isValid {text : Bytes} {c : UInt8} (h : isValid text = true) (hc : c ∈ text) :
    (value? c).isSome = true ∨ c = 0x78 ∨ c = 0x58 := by
  rw [isValid, Bool.and_eq_true, digits.eq_def] at h
  split at h
  · simp only [List.mem_cons] at hc
    rcases hc with rfl | rfl | hc
    · exact .inl (by decide)
    · exact .inr (.inl rfl)
    · exact .inl (List.all_eq_true.mp h.2 c hc)
  · simp only [List.mem_cons] at hc
    rcases hc with rfl | rfl | hc
    · exact .inl (by decide)
    · exact .inr (.inr rfl)
    · exact .inl (List.all_eq_true.mp h.2 c hc)
  · exact .inl (List.all_eq_true.mp h.2 c hc)

theorem isValid_encode {b : Bytes} (h : b ≠ []) : isValid (encode b) = true :=
  isValid_iff.mpr ⟨b, h, decode_encode b⟩

end CurveKeys.Hex
