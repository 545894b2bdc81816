import CurveKeys.Bytes.Text
import CurveKeys.Proofs.Bytes.Hex

/-!
# Bytes — the hexadecimal codec on every text

What is written is read back, also behind a prefix and in capitals.  A text is read when it is an
even number of digits, and the octets are then written as the text in small letters; else the fault
that is reported is an odd length, or the first pair with something in it that is no digit.  The
check passes the texts that are read to at least one octet.

* `Hex.isDigit`: the digits, in either case, and `Hex.BadPair`: a pair with something else in it.
* `Hex.decodePairs_lower`, `Hex.encode_decodePairs`: reading forgets the case and nothing else.
* `Hex.decodePairs_error`: the first bad pair is reported.
* `Hex.codec_agrees`: writing, reading and the check side by side.
-/

namespace CurveKeys

namespace Text

/-- Small letters can be capitals first. -/
theorem lower_upper (s : Bytes) : lower (upper s) = lower s := by
  rw [lower, lower, upper, List.map_map]
  refine List.map_congr_left fun c _ => ?_
  simp only [Function.comp, isLower, isUpper]
  grind

end Text

namespace Hex

variable {offset : Nat} {text b : Bytes}

/-! ### Digits in either case -/

/-- A figure, or a letter up to `f` in either case. -/
def isDigit (c : UInt8) : Bool := isWritten c || 0x41 ≤ c && c ≤ 0x46

theorem isSome_value? (c : UInt8) : (value? c).isSome = isDigit c := by
  simp only [value?, isDigit, isWritten]
  grind

/-- A digit stands for the same value in either case. -/
theorem value?_lower (c : UInt8) : value? (if Text.isUpper c then c + 0x20 else c) = value? c := by
  simp only [value?, Text.isUpper]
  grind

/-- The digit that is written for the value of a digit is that digit in small letters. -/
theorem digit_of_value? {c v : UInt8} (h : value? c = some v) :
    digit v = if Text.isUpper c then c + 0x20 else c := by
  simp only [value?, digit, Text.isUpper] at *
  grind

/-- The halves of an octet that was put together from them. -/
theorem high_of_join {h l : UInt8} (hh : h < 16) (hl : l < 16) : (h <<< 4 ||| l) >>> 4 = h := by
  have hl' : l.toNat < 16 := hl
  rw [← UInt8.toNat_inj, UInt8.toNat_shiftRight, toNat_high_or_low hh hl,
    Nat.shiftRight_eq_div_pow]
  show (h.toNat * 16 + l.toNat) / 16 = h.toNat
  omega

theorem low_of_join {h l : UInt8} (hh : h < 16) (hl : l < 16) : (h <<< 4 ||| l) &&& 0x0f = l := by
  have hl' : l.toNat < 16 := hl
  rw [← UInt8.toNat_inj, UInt8.toNat_and, toNat_high_or_low hh hl,
    show (0x0f : UInt8).toNat = 2 ^ 4 - 1 from rfl, Nat.and_two_pow_sub_one_eq_mod]
  omega

/-! ### Reading and case -/

theorem lower_cons (c : UInt8) (s : Bytes) :
    Text.lower (c :: s) = (if Text.isUpper c then c + 0x20 else c) :: Text.lower s := rfl

/-- Digits are read in either case. -/
theorem decodePairs_lower : ∀ (offset : Nat) (text : Bytes),
    decodePairs offset (Text.lower text) = decodePairs offset text
  | offset, hi :: lo :: rest => by
      rw [lower_cons, lower_cons, decodePairs, decodePairs, value?_lower, value?_lower,
        decodePairs_lower (offset + 2) rest]
  | _, [_] => rfl
  | _, [] => rfl

theorem decodePairs_upper (offset : Nat) (text : Bytes) :
    decodePairs offset (Text.upper text) = decodePairs offset text := by
  rw [← decodePairs_lower, Text.lower_upper, decodePairs_lower]

/-- **What is read** is written as the digits in small letters. -/
theorem encode_decodePairs (h : decodePairs offset text = .ok b) : encode b = Text.lower text := by
  induction offset, text using decodePairs.induct generalizing b with
  | case1 offset hi lo rest _ _ _ _ ih =>
      obtain ⟨x, y, b, hx, hy, hb, rfl⟩ := decodePairs_cons_eq_ok_iff.mp h
      rw [encode_cons, lower_cons, lower_cons, ih hb,
        high_of_join (value?_lt hx) (value?_lt hy), low_of_join (value?_lt hx) (value?_lt hy),
        digit_of_value? hx, digit_of_value? hy]
  | case2 offset hi lo rest hn =>
      obtain ⟨x, y, -, hx, hy, -⟩ := decodePairs_cons_eq_ok_iff.mp h
      exact absurd hy (hn x y hx)
  | case3 => cases h
  | case4 =>
      obtain rfl := Except.ok.inj h
      rfl

/-- Nothing that is read pair by pair looks like a prefix. -/
theorem digits_of_decodePairs (h : decodePairs offset text = .ok b) : digits text = text := by
  have hall := List.all_eq_true.mp (exists_decodePairs_iff.mp ⟨b, h⟩).2
  rw [digits.eq_def]
  split
  · exact absurd (hall 0x78 (by simp)) (by decide)
  · exact absurd (hall 0x58 (by simp)) (by decide)
  · rfl

/-- What may stand in front of digits. -/
def marks : List Bytes := ["", "0x", "0X"].map Bytes.ascii

/-- Pairs of digits are read whatever mark is in front. -/
theorem decode_mark {mark : Bytes} (hm : mark ∈ marks) (h : decodePairs 0 text = .ok b) :
    decode (mark ++ text) = .ok b := by
  rw [decode_eq_ok_iff]
  simp only [marks, List.map_cons, List.map_nil, List.mem_cons, List.not_mem_nil, or_false] at hm
  rcases hm with rfl | rfl | rfl
  · exact (congrArg (decodePairs 0) (digits_of_decodePairs h)).trans h
  · exact h
  · exact h

/-! ### What is reported -/

/-- Something in the pair of the given index is no digit. -/
def BadPair (text : Bytes) (i : Nat) : Prop :=
  ∃ c, (text[2 * i]? = some c ∨ text[2 * i + 1]? = some c) ∧ isDigit c = false

theorem badPair_zero {hi lo : UInt8} {rest : Bytes} :
    BadPair (hi :: lo :: rest) 0 ↔ isDigit hi = false ∨ isDigit lo = false := by
  constructor
  · rintro ⟨c, h | h, hc⟩
    · exact .inl (Option.some.inj h ▸ hc)
    · exact .inr (Option.some.inj h ▸ hc)
  · rintro (h | h)
    · exact ⟨hi, .inl rfl, h⟩
    · exact ⟨lo, .inr rfl, h⟩

theorem not_badPair_zero {hi lo : UInt8} {rest : Bytes} :
    ¬ BadPair (hi :: lo :: rest) 0 ↔ (∃ x, value? hi = some x) ∧ ∃ y, value? lo = some y := by
  rw [badPair_zero, not_or, Bool.not_eq_false, Bool.not_eq_false, ← isSome_value?,
    ← isSome_value?, Option.isSome_iff_exists, Option.isSome_iff_exists]

theorem badPair_succ {hi lo : UInt8} {rest : Bytes} {i : Nat} :
    BadPair (hi :: lo :: rest) (i + 1) ↔ BadPair rest i := Iff.rfl

/-- **The first bad pair** is reported, by where it begins. -/
theorem decodePairs_error {e : Error} (he : text.length % 2 = 0)
    (h : decodePairs offset text = .error e) :
    ∃ i, e = .badDigit (offset + 2 * i) ∧ BadPair text i ∧ ∀ j < i, ¬ BadPair text j := by
  induction offset, text using decodePairs.induct with
  | case1 offset hi lo rest x y hy hx ih =>
      have hr : rest.length % 2 = 0 := (Nat.add_mod_right rest.length 2).symm.trans he
      rw [decodePairs, hx, hy] at h
      rcases hd : decodePairs (offset + 2) rest with e' | b
      · rw [hd] at h
        cases h
        obtain ⟨i, rfl, hbad, hj⟩ := ih hr hd
        refine ⟨i + 1, congrArg Error.badDigit (by omega), badPair_succ.mpr hbad, fun j hlt => ?_⟩
        cases j with
        | zero => exact not_badPair_zero.mpr ⟨⟨x, hx⟩, y, hy⟩
        | succ j => exact mt badPair_succ.mp (hj j (Nat.lt_of_succ_lt_succ hlt))
      · rw [hd] at h
        cases h
  | case2 offset hi lo rest hn =>
      rw [decodePairs] at h
      split at h
      · rename_i x y hx hy
        exact absurd hy (hn x y hx)
      · cases h
        refine ⟨0, rfl, ?_, fun j hlt => absurd hlt (Nat.not_lt_zero j)⟩
        by_contra hgood
        obtain ⟨⟨x, hx⟩, y, hy⟩ := not_badPair_zero.mp hgood
        exact hn x y hx hy
  | case3 => cases he
  | case4 => cases h

/-- **What is reported** of a text that is not read: an odd length before anything else, and then
the first bad pair. -/
theorem decode_error {e : Error} (h : decode text = .error e) :
    (e = .oddLength ↔ (digits text).length % 2 = 1) ∧
      (e ≠ .oddLength → ∃ i, e = .badDigit (2 * i) ∧ BadPair (digits text) i ∧
        ∀ j < i, ¬ BadPair (digits text) j) := by
  rw [decode] at h
  split_ifs at h with hodd
  · cases h
    exact ⟨iff_of_true rfl hodd, fun hne => absurd rfl hne⟩
  · obtain ⟨i, rfl, hbad, hfirst⟩ := decodePairs_error (by omega) h
    exact ⟨iff_of_false (fun hc => by cases hc) hodd,
      fun _ => ⟨i, by rw [Nat.zero_add], hbad, hfirst⟩⟩

/-! ### The codec and the check -/

/-- **The codec and the check agree.**  Any octets are read back from their digits, in either case
and behind any mark.  A text is read when it is an even number of digits, and is then what is
written, in small letters; it passes the check when at least one octet is read.  Else an odd length
is reported, or the first bad pair. -/
theorem codec_agrees :
    (∀ (b : Bytes), ∀ mark ∈ marks,
      decode (mark ++ encode b) = .ok b ∧ decode (mark ++ Text.upper (encode b)) = .ok b) ∧
    ∀ text : Bytes,
      ((∃ b, decode text = .ok b) ↔
        (digits text).length % 2 = 0 ∧ ∀ c ∈ digits text, isDigit c = true) ∧
      (∀ b, decode text = .ok b → encode b = Text.lower (digits text)) ∧
      (isValid text = true ↔ ∃ b, b ≠ [] ∧ decode text = .ok b) ∧
      ∀ e, decode text = .error e →
        (e = .oddLength ↔ (digits text).length % 2 = 1) ∧
        (e ≠ .oddLength → ∃ i, e = .badDigit (2 * i) ∧ BadPair (digits text) i ∧
          ∀ j < i, ¬ BadPair (digits text) j) := by
  refine ⟨fun b mark hm => ⟨?_, ?_⟩, fun text => ⟨?_, ?_, isValid_iff, fun e => decode_error⟩⟩
  · exact decode_mark hm (decodePairs_encode 0 b)
  · exact decode_mark hm ((decodePairs_upper 0 (encode b)).trans (decodePairs_encode 0 b))
  · simp only [decode_eq_ok_iff, exists_decodePairs_iff, List.all_eq_true, isSome_value?]
  · exact fun b hb => encode_decodePairs (decode_eq_ok_iff.mp hb)

theorem codec_agrees_marked :
    decode (Bytes.ascii "0X00FF") = .ok [0x00, 0xff] ∧
    encode [0x00, 0xff] = Text.lower (digits (Bytes.ascii "0X00FF")) ∧
    decode (Bytes.ascii "0xab0x0g") = .error (.badDigit 2) ∧
    ∃ i, Error.badDigit 2 = .badDigit (2 * i) ∧ BadPair (Bytes.ascii "ab0x0g") i ∧
      ∀ j < i, ¬ BadPair (Bytes.ascii "ab0x0g") j := by
  obtain ⟨written, every⟩ := codec_agrees
  have good := (written [0x00, 0xff] (Bytes.ascii "0X") (by decide)).2
  have bad : decode (Bytes.ascii "0xab0x0g") = .error (.badDigit 2) := by decide
  obtain ⟨-, back, -, -⟩ := every (Bytes.ascii "0X00FF")
  obtain ⟨-, -, -, reported⟩ := every (Bytes.ascii "0xab0x0g")
  exact ⟨good, back _ good, bad, (reported _ bad).2 (by decide)⟩

end Hex

end CurveKeys
