import CurveKeys.Proofs.Bytes.Decimal
import CurveKeys.Proofs.Bytes.Positional

/-!
# Bytes — numbers in columns

Digits that fill a number of columns are determined by the number they denote, and those that fill
as many columns stand in the order of their numbers.  A number that fits is written into the columns
with zeros in front of it (`Decimal.columns_padded`).

* `Decimal.Columns`: digits fill so many columns with a number.
* `Decimal.Ascending`: numbered texts of one length stand in the order of their numbers; they still
  do when a column of digits is put behind each (`Decimal.Ascending.append_padded`).
-/

namespace CurveKeys.Decimal

/-! ### The order of digits -/

theorem positional : Positional 10 (fun c => (c - 0x30).toNat) number where
  nil := rfl
  concat b x := by rw [number_concat, Nat.add_comm, Nat.mul_comm]

/-- The digits are the ten octets from `0` on. -/
theorem toNat_of_lt {c : UInt8} (h : (c - 0x30).toNat < 10) :
    (c - 0x30).toNat + 0x30 = c.toNat := by
  have hc := c.toNat_lt
  rw [UInt8.toNat_sub] at h ⊢
  change (2 ^ 8 - 0x30 + c.toNat) % 2 ^ 8 < 10 at h
  change (2 ^ 8 - 0x30 + c.toNat) % 2 ^ 8 + 0x30 = c.toNat
  omega

theorem lt_of_isDigit {c : UInt8} (h : Text.isDigit c = true) : (c - 0x30).toNat < 10 := by
  obtain ⟨h₀, h₉⟩ := isDigit_iff.mp h
  rw [UInt8.toNat_sub_of_le c 0x30 h₀]
  change c.toNat ≤ 0x39 at h₉
  change c.toNat - 0x30 < 10
  omega

theorem digit_lt_digit {x y : UInt8} (hx : (x - 0x30).toNat < 10) (hy : (y - 0x30).toNat < 10)
    (h : x < y) : (x - 0x30).toNat < (y - 0x30).toNat := by
  have hxy : x.toNat < y.toNat := h
  rw [← toNat_of_lt hx, ← toNat_of_lt hy] at hxy
  exact Nat.lt_of_add_lt_add_right hxy

/-! ### Columns -/

/-- The digits fill `width` columns with the number `n`. -/
structure Columns (width : Nat) (n : Int) (digits : Bytes) : Prop where
  length : digits.length = width
  isDigit : ∀ c ∈ digits, Text.isDigit c = true
  number : (Decimal.number digits : Int) = n

namespace Columns

variable {width : Nat} {m n : Int} {a b : Bytes}

theorem digit_lt (h : Columns width n a) : ∀ c ∈ a, (c - 0x30).toNat < 10 :=
  fun c hc => lt_of_isDigit (h.isDigit c hc)

theorem lt_pow (h : Columns width n a) : n < 10 ^ width := by
  rw [← h.number, ← h.length]
  exact_mod_cast positional.lt_pow h.digit_lt

/-- **Columns stand in the order** of their numbers. -/
theorem lt (ha : Columns width m a) (hb : Columns width n b) (h : m < n) : a < b := by
  rw [← ha.number, ← hb.number, Int.ofNat_lt] at h
  exact (positional.lt_iff (fun _ _ => digit_lt_digit) (ha.length.trans hb.length.symm) ha.digit_lt
    hb.digit_lt).mpr h

/-- **The digits are determined** by the number. -/
theorem unique (ha : Columns width n a) (hb : Columns width n b) : a = b :=
  positional.inj (fun _ _ => digit_lt_digit) (ha.length.trans hb.length.symm) ha.digit_lt hb.digit_lt
    (Int.ofNat.inj (ha.number.trans hb.number.symm))

end Columns

/-- How many digits a number takes. -/
theorem length_ofNat_le_iff (n width : Nat) :
    (ofNat n).length ≤ width + 1 ↔ n < 10 ^ (width + 1) := by
  induction n using ofNat.induct generalizing width with
  | case1 n h =>
      rw [ofNat, if_pos h]
      exact iff_of_true (Nat.succ_le_succ (Nat.zero_le _))
        (Nat.lt_of_lt_of_le h (Nat.le_self_pow (Nat.succ_ne_zero _) 10))
  | case2 n h ih =>
      rw [ofNat, if_neg h, List.length_append, List.length_singleton, Nat.add_le_add_iff_right]
      rcases width with _ | width
      · have hne : (ofNat (n / 10)).length ≠ 0 :=
          fun h => (number_ofNat (n / 10)).2.1 (List.length_eq_zero_iff.mp h)
        omega
      · rw [ih, Nat.pow_succ 10 (width + 1), Nat.div_lt_iff_lt_mul (by decide)]

/-- **A number that fits** is written into the columns. -/
theorem columns_padded {width : Nat} {n : Int} (h₀ : 0 ≤ n) (h : n < 10 ^ (width + 1)) :
    Columns (width + 1) n (padded (width + 1) n) := by
  lift n to Nat using h₀
  obtain ⟨hn, -, hd⟩ := number_ofNat n
  have hfits : (ofNat n).length ≤ width + 1 := by
    rw [length_ofNat_le_iff]
    exact_mod_cast h
  have hpadded : padded (width + 1) n =
      List.replicate (width + 1 - (ofNat n).length) 0x30 ++ ofNat n := rfl
  refine ⟨?_, ?_, ?_⟩
  · rw [hpadded, List.length_append, List.length_replicate, Nat.sub_add_cancel hfits]
  · intro c hc
    rw [hpadded] at hc
    rcases List.mem_append.mp hc with hc | hc
    · rw [List.eq_of_mem_replicate hc]
      rfl
    · exact hd c hc
  · rw [hpadded, positional.replicate_append rfl, hn]

/-- A remainder fits where the numbers below the divisor do. -/
theorem columns_mod {width radix : Nat} (h₀ : 0 < radix) (h : radix ≤ 10 ^ (width + 1)) (n : Nat) :
    Columns (width + 1) (n % radix : Nat) (padded (width + 1) (n % radix : Nat)) := by
  have hlt : n % radix < 10 ^ (width + 1) := Nat.lt_of_lt_of_le (Nat.mod_lt n h₀) h
  exact columns_padded (Int.natCast_nonneg _) (by exact_mod_cast hlt)

/-- A number that takes all the columns is written without zeros in front of it. -/
theorem padded_eq_ofInt {width : Nat} {n : Int} (h : 10 ^ (width + 1) ≤ n) :
    padded (width + 2) n = ofInt n := by
  lift n to Nat using Int.le_trans (Int.pow_nonneg (by decide)) h
  have hlength : width + 2 ≤ (ofNat n).length := by
    rw [← Nat.not_lt, Nat.lt_succ_iff, length_ofNat_le_iff, Nat.not_lt]
    exact_mod_cast h
  change List.replicate (width + 2 - (ofNat n).length) 0x30 ++ ofNat n = ofNat n
  rw [Nat.sub_eq_zero_of_le hlength]
  rfl

/-! ### Texts in the order of their numbers -/

/-- Of the numbers below `bound`, each has a text of `length` octets that stands behind the texts of
the smaller ones. -/
structure Ascending (bound length : Nat) (text : Nat → Bytes) : Prop where
  length : ∀ n < bound, (text n).length = length
  lt : ∀ m n, m < n → n < bound → text m < text n

/-- Of two texts of one length, the one that is smaller in front is smaller. -/
theorem append_lt_append {a b : Bytes} (hl : a.length = b.length) (h : a < b) (s t : Bytes) :
    a ++ s < b ++ t := by
  induction a generalizing b with
  | nil =>
      obtain rfl := List.length_eq_zero_iff.mp hl.symm
      exact absurd h (List.lt_irrefl _)
  | cons x a ih =>
      rcases b with _ | ⟨y, b⟩
      · cases hl
      rw [List.cons_lt_cons_iff] at h
      rw [List.cons_append, List.cons_append, List.cons_lt_cons_iff]
      exact h.imp_right fun ⟨hxy, hab⟩ => ⟨hxy, ih (Nat.succ.inj hl) hab⟩

/-- The column behind a mark decides between texts that are equal in front of it. -/
theorem append_cons_lt_append_cons {a b s t : Bytes} (hl : a.length = b.length)
    (h : a < b ∨ a = b ∧ s < t) (mark : UInt8) : a ++ mark :: s < b ++ mark :: t := by
  rcases h with h | ⟨rfl, h⟩
  · exact append_lt_append hl h _ _
  · exact List.append_left_lt (List.cons_lt_cons_iff.mpr (.inr ⟨rfl, h⟩))

/-- **A further column**: where `radix` numbers share a text, digits behind it tell them apart. -/
theorem Ascending.append_padded {bound length width radix : Nat} {text : Nat → Bytes}
    (h : Ascending bound length text) (h₀ : 0 < radix) (hr : radix ≤ 10 ^ (width + 1))
    (mark : UInt8) :
    Ascending (bound * radix) (length + (width + 2)) fun n =>
      text (n / radix) ++ mark :: padded (width + 1) (n % radix : Nat) := by
  have quotient {n : Nat} (hn : n < bound * radix) : n / radix < bound :=
    (Nat.div_lt_iff_lt_mul h₀).mpr hn
  have remainder := columns_mod h₀ hr
  constructor
  · intro n hn
    rw [List.length_append, List.length_cons, h.length _ (quotient hn), (remainder n).length]
  · intro m n hmn hn
    have hl := (h.length _ (quotient (Nat.lt_trans hmn hn))).trans (h.length _ (quotient hn)).symm
    refine append_cons_lt_append_cons hl ?_ mark
    rcases Nat.lt_or_eq_of_le (Nat.div_le_div_right (c := radix) hmn.le) with hlt | heq
    · exact .inl (h.lt _ _ hlt (quotient hn))
    · have hmod : m % radix < n % radix := by
        rw [← Nat.div_add_mod m radix, ← Nat.div_add_mod n radix, heq] at hmn
        exact Nat.lt_of_add_lt_add_left hmn
      exact .inr ⟨congrArg text heq, (remainder m).lt (remainder n) (Int.ofNat_lt.mpr hmod)⟩

end CurveKeys.Decimal
