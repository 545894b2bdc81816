import CurveKeys.Bytes.Decimal
import CurveKeys.Proofs.Bytes.Text
import Mathlib.Data.List.Induction
import Mathlib.Data.Nat.Digits.Defs
import Mathlib.Tactic.SplitIfs

/-!
# Bytes — decimal numerals

The text of an integer is digits, with a sign in front or without one.  Reading skips white space,
takes the sign and the longest run of digits, and leaves the rest; what it gives is the integer that
sign and digits denote, if that has 64 bits.  An integer that is written is such a text.

* `Decimal.number`: the number that digits denote.
* `Decimal.Begins`: a text begins with the text of an integer.
* `Decimal.readInt64?_eq_some_iff`: what reading gives.
* `Decimal.number_ofNat`, `Decimal.begins_ofInt`: what is written.
-/

namespace CurveKeys.Decimal

/-! ### Octets -/

theorem isSpace_iff {c : UInt8} :
    Text.isSpace c = true ↔ c ∈ ([0x20, 0x09, 0x0a, 0x0b, 0x0c, 0x0d] : Bytes) := by
  simp only [Text.isSpace, Bool.or_eq_true, Bool.and_eq_true, beq_iff_eq, decide_eq_true_eq,
    List.mem_cons, List.not_mem_nil, or_false]
  grind

theorem isBlank_iff {c : UInt8} :
    Text.isBlank c = true ↔ c ∈ ([0x20, 0x09, 0x0d, 0x0a] : Bytes) := by
  simp [Text.isBlank, or_assoc]

theorem isDigit_iff {c : UInt8} : Text.isDigit c = true ↔ 0x30 ≤ c ∧ c ≤ 0x39 := by
  simp [Text.isDigit]

/-- A digit is no white space and no sign. -/
theorem not_isSpace_of_isDigit {c : UInt8} (h : Text.isDigit c = true) :
    Text.isSpace c = false ∧ c ≠ 0x2d ∧ c ≠ 0x2b := by
  simp only [Text.isDigit, Text.isSpace, Bool.and_eq_true, decide_eq_true_eq] at h ⊢
  grind

theorem not_isDigit_of_isBlank {c : UInt8} (h : Text.isBlank c = true) :
    Text.isDigit c = false := by
  rw [isBlank_iff] at h
  simp only [List.mem_cons, List.not_mem_nil, or_false] at h
  rcases h with rfl | rfl | rfl | rfl <;> rfl

/-! ### Digits -/

/-- The number that digits denote; the last one counts once, each other ten times as much as the
next. -/
def number (digits : Bytes) : Nat :=
  Nat.ofDigits 10 (digits.reverse.map fun c => (c - 0x30).toNat)

theorem number_concat (digits : Bytes) (c : UInt8) :
    number (digits ++ [c]) = (c - 0x30).toNat + 10 * number digits := by
  rw [number, List.reverse_concat, List.map_cons, Nat.ofDigits_cons]
  rfl

theorem value_eq_number (digits : Bytes) : value digits = number digits := by
  induction digits using List.reverseRecOn with
  | nil => rfl
  | append_singleton digits c ih =>
      rw [number_concat, ← ih, value, List.foldl_append, Nat.add_comm, Nat.mul_comm]
      rfl

/-- The digit of a number below ten. -/
theorem isDigit_ofNat : ∀ n < 10, Text.isDigit (UInt8.ofNat (0x30 + n)) = true ∧
    (UInt8.ofNat (0x30 + n) - 0x30).toNat = n := by
  decide

/-- **The digits that are written** for a number denote it. -/
theorem number_ofNat (n : Nat) :
    number (ofNat n) = n ∧ ofNat n ≠ [] ∧ ∀ c ∈ ofNat n, Text.isDigit c = true := by
  induction n using ofNat.induct with
  | case1 n h =>
      obtain ⟨hd, hv⟩ := isDigit_ofNat n h
      have one : ofNat n = [] ++ [UInt8.ofNat (0x30 + n)] := by rw [ofNat, if_pos h, List.nil_append]
      rw [one, number_concat, hv]
      refine ⟨rfl, List.concat_ne_nil _ _, ?_⟩
      intro c hc
      rwa [List.mem_singleton.mp hc]
  | case2 n h ih =>
      obtain ⟨hn, -, hall⟩ := ih
      obtain ⟨hd, hv⟩ := isDigit_ofNat (n % 10) (Nat.mod_lt n (by decide))
      rw [ofNat, if_neg h, number_concat, hv, hn]
      refine ⟨Nat.mod_add_div n 10, List.concat_ne_nil _ _, ?_⟩
      intro c hc
      rcases List.mem_append.mp hc with hc | hc
      · exact hall c hc
      · rwa [List.mem_singleton.mp hc]

/-- Only digits are written for a number, behind a minus sign if it is negative, and zeros in front
of it where columns are to be filled. -/
theorem not_mem_ofNat {c : UInt8} (hc : Text.isDigit c = false) (n : Nat) : c ∉ ofNat n :=
  fun h => Bool.false_ne_true (hc.symm.trans ((number_ofNat n).2.2 c h))

theorem not_mem_ofInt {c : UInt8} (hc : Text.isDigit c = false) (hm : c ≠ 0x2d) :
    ∀ z, c ∉ ofInt z
  | .ofNat n   => not_mem_ofNat hc n
  | .negSucc n => List.not_mem_cons_of_ne_of_not_mem hm (not_mem_ofNat hc (n + 1))

theorem not_mem_padded {c : UInt8} (hc : Text.isDigit c = false) (hm : c ≠ 0x2d) (width : Nat)
    (z : Int) : c ∉ padded width z := by
  have hz : c ≠ 0x30 := by
    rintro rfl
    cases hc
  rw [padded, List.leftpad, List.mem_append, not_or]
  exact ⟨fun h => hz (List.eq_of_mem_replicate h), not_mem_ofInt hc hm z⟩

/-! ### Signs -/

/-- How a sign is written, if at all. -/
inductive Sign where
  | absent
  | plus
  | minus

namespace Sign

def text : Sign → Bytes
  | absent => []
  | plus   => [0x2b]
  | minus  => [0x2d]

/-- The integer with the sign and the magnitude. -/
def apply : Sign → Nat → Int
  | minus, n => -n
  | _, n     => n

end Sign

variable {text space digits rest : Bytes} {sign : Sign} {z : Int}

/-- Behind white space the sign is read, where a digit stands behind it. -/
theorem readSign_append (h : ∀ c, digits.head? = some c → Text.isDigit c = true) :
    readSign (sign.text ++ digits) = (match sign with | .minus => true | _ => false, digits) := by
  cases sign with
  | absent =>
      rw [Sign.text, List.nil_append, readSign.eq_def]
      split
      · exact absurd (h _ rfl) (by decide)
      · exact absurd (h _ rfl) (by decide)
      · rfl
  | plus => rfl
  | minus => rfl

theorem exists_sign (body : Bytes) :
    ∃ sign : Sign, body = sign.text ++ (readSign body).2 ∧
      ∀ n : Nat, sign.apply n = if (readSign body).1 then -(n : Int) else n := by
  rw [readSign.eq_def]
  split
  · exact ⟨.minus, rfl, fun _ => rfl⟩
  · exact ⟨.plus, rfl, fun _ => rfl⟩
  · exact ⟨.absent, rfl, fun _ => rfl⟩

/-! ### Integers -/

/-- A text begins with the text of an integer: white space, a sign or none, and digits, behind which
no further digit stands. -/
inductive Begins : Bytes → Int → Bytes → Prop where
  | intro (space : Bytes) (sign : Sign) (digits rest : Bytes)
      (spaces : ∀ c ∈ space, Text.isSpace c = true)
      (isDigit : ∀ c ∈ digits, Text.isDigit c = true) (some_digit : digits ≠ [])
      (ends : ∀ c, rest.head? = some c → Text.isDigit c = false) :
      Begins (space ++ (sign.text ++ (digits ++ rest))) (sign.apply (number digits)) rest

/-- A sign or a digit is no white space. -/
theorem not_isSpace_of_head (isDigit : ∀ c ∈ digits, Text.isDigit c = true)
    (some_digit : digits ≠ []) :
    ∀ c, (sign.text ++ (digits ++ rest)).head? = some c → Text.isSpace c = false := by
  intro c hc
  cases sign with
  | absent =>
      rw [Sign.text, List.nil_append, List.head?_append_of_ne_nil digits some_digit] at hc
      exact (not_isSpace_of_isDigit (isDigit c (List.mem_of_head? hc))).1
  | plus =>
      obtain rfl := Option.some.inj hc
      rfl
  | minus =>
      obtain rfl := Option.some.inj hc
      rfl

theorem Begins.readInt64?_eq (h : Begins text z rest) :
    readInt64? text = if !inInt64 z then none else some (z, rest) := by
  obtain ⟨space, sign, digits, rest, spaces, isDigit, some_digit, ends⟩ := h
  have head : ∀ c, (digits ++ rest).head? = some c → Text.isDigit c = true := by
    intro c hc
    rw [List.head?_append_of_ne_nil digits some_digit] at hc
    exact isDigit c (List.mem_of_head? hc)
  simp only [readInt64?]
  rw [Text.dropWhile_append_of_head spaces (not_isSpace_of_head isDigit some_digit),
    readSign_append head]
  have hne : digits.isEmpty = false := by simp [some_digit]
  simp only [Text.takeWhile_append_of_head isDigit ends, Text.dropWhile_append_of_head isDigit ends,
    value_eq_number, hne, Bool.false_or]
  cases sign <;> rfl

theorem begins_of_readInt64? (h : readInt64? text = some (z, rest)) : Begins text z rest := by
  obtain ⟨sign, hbody, hz⟩ := exists_sign (text.dropWhile Text.isSpace)
  simp only [readInt64?, ← hz, value_eq_number] at h
  generalize (readSign (text.dropWhile Text.isSpace)).2 = body at hbody h
  split_ifs at h with hc
  obtain ⟨rfl, rfl⟩ := Prod.mk.inj (Option.some.inj h)
  rw [Bool.or_eq_true, not_or, List.isEmpty_iff] at hc
  have ends : ∀ c, (body.dropWhile Text.isDigit).head? = some c → Text.isDigit c = false := by
    intro c hc
    have hd := List.head?_dropWhile_not Text.isDigit body
    rw [hc] at hd
    exact hd
  have hb := Begins.intro (text.takeWhile Text.isSpace) sign (body.takeWhile Text.isDigit)
    (body.dropWhile Text.isDigit) (fun _ => List.mem_takeWhile_imp)
    (fun _ => List.mem_takeWhile_imp) hc.1 ends
  rwa [List.takeWhile_append_dropWhile, ← hbody, List.takeWhile_append_dropWhile] at hb

/-- **What is read** from a text: the integer it begins with, if that has 64 bits, and the rest. -/
theorem readInt64?_eq_some_iff :
    readInt64? text = some (z, rest) ↔ Begins text z rest ∧ inInt64 z = true := by
  constructor
  · intro h
    have hb := begins_of_readInt64? h
    rw [hb.readInt64?_eq] at h
    split_ifs at h with hz
    exact ⟨hb, by simpa using hz⟩
  · rintro ⟨h, hz⟩
    rw [h.readInt64?_eq, hz]
    rfl

/-- **An integer that is written** is such a text, with nothing around it. -/
theorem begins_ofInt (z : Int) : Begins (ofInt z) z [] := by
  have written : ∀ (sign : Sign) (n : Nat), Begins (sign.text ++ ofNat n) (sign.apply n) [] := by
    intro sign n
    obtain ⟨hn, hne, hall⟩ := number_ofNat n
    have hb := Begins.intro [] sign (ofNat n) [] (List.forall_mem_nil _) hall hne
      (fun _ hc => by cases hc)
    rwa [hn, List.append_nil, List.nil_append] at hb
  cases z with
  | ofNat n => exact written .absent n
  | negSucc n => exact written .minus (n + 1)

end CurveKeys.Decimal
