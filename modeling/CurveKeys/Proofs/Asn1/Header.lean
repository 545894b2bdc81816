import CurveKeys.Asn1.Der
import CurveKeys.Proofs.Bytes.BigEndian

/-!
# Asn1 — the octets of a header

Which octets announce a header, under the basic and under the distinguished rules.  The
distinguished rules are the basic ones without their choices: a tag number takes no octets of its
own, and a length is definite and written as short as possible.

* `Header.read?_eq_some_iff`: the reader finds a header exactly where basic octets announce it.
* `Header.Announces.append`, `Header.Announces.of_fits`: what is announced stays so when octets are
  added after the value, or taken from there.
* `Header.announces_der`, `Header.Announces.eq_der`: the distinguished octets of a header are those
  that are written.
-/

namespace CurveKeys.Asn1

/-- The rules an encoding keeps to. -/
inductive Rules where
  | basic
  | distinguished

namespace Header

/-- Groups of seven bits that continue the number `acc` to `n`. -/
inductive TagGroups : Nat → Bytes → Nat → Prop where
  | last {acc : Nat} {c : UInt8} : c < 0x80 → TagGroups acc [c] (acc * 128 + c.toNat % 128)
  | more {acc n : Nat} {c : UInt8} {groups : Bytes} : ¬ c < 0x80 →
      acc * 128 + c.toNat % 128 ≤ 0xffffff →
      TagGroups (acc * 128 + c.toNat % 128) groups n → TagGroups acc (c :: groups) n

/-- The octets after an identifier octet that complete the tag number `n`. -/
inductive TagOctets : Rules → UInt8 → Bytes → Nat → Prop where
  | short {rules : Rules} {identifier : UInt8} : identifier.toNat % 32 ≠ 31 →
      TagOctets rules identifier [] (identifier.toNat % 32)
  | long {identifier : UInt8} {groups : Bytes} {n : Nat} : identifier.toNat % 32 = 31 →
      TagGroups 0 groups n → TagOctets .basic identifier groups n

/-- The octets of a length.  A long length may begin with zeros, and may be small, under the basic
rules. -/
inductive LengthOctets : Rules → Bytes → Option Nat → Prop where
  | short {rules : Rules} {c : UInt8} : c < 0x80 → LengthOctets rules [c] (some c.toNat)
  | indefinite : LengthOctets .basic [0x80] none
  | long {rules : Rules} {c : UInt8} {digits : Bytes} : 0x80 < c →
      digits.length = c.toNat % 128 → BigEndian.value digits < 2 ^ 63 →
      (rules = .distinguished → digits.head? ≠ some 0 ∧ 128 ≤ BigEndian.value digits) →
      LengthOctets rules (c :: digits) (some (BigEndian.value digits))

/-- The octets that announce a header, in front of `body`.  The value is among the octets of
`body`, and a long length is not the last thing in a string. -/
inductive Announces : Rules → Bytes → Header → Bytes → Prop where
  | mk {rules : Rules} {identifier : UInt8} {groups counts : Bytes} {header : Header}
      {body : Bytes} : header.tagClass = .ofIdentifier identifier →
      header.constructed = decide (identifier.toNat / 32 % 2 = 1) →
      TagOctets rules identifier groups header.tag → LengthOctets rules counts header.length →
      (2 ≤ counts.length → body ≠ []) → header.fits body = true →
      Announces rules (identifier :: (groups ++ counts)) header body

variable {rules : Rules} {acc n tag : Nat} {identifier : UInt8} {length : Option Nat}
  {header : Header} {s rest octets body : Bytes}

/-! ### The reader -/

theorem TagGroups.read {groups : Bytes} (h : TagGroups acc groups n) (rest : Bytes) :
    readTagGroups acc (groups ++ rest) = some (n, rest) := by
  induction h with
  | last hc => simp [readTagGroups, hc]
  | more hc hle _ ih => simp [readTagGroups, hc, Nat.not_lt.mpr hle, ih]

theorem exists_of_readTagGroups (h : readTagGroups acc s = some (n, rest)) :
    ∃ groups, s = groups ++ rest ∧ TagGroups acc groups n := by
  induction s generalizing acc with
  | nil => cases h
  | cons c s ih =>
      simp only [readTagGroups] at h
      by_cases hc : c < 0x80
      · rw [if_pos hc] at h
        cases h
        exact ⟨[c], rfl, .last hc⟩
      rw [if_neg hc] at h
      by_cases hle : 0xffffff < acc * 128 + c.toNat % 128
      · rw [if_pos hle] at h
        cases h
      rw [if_neg hle] at h
      obtain ⟨groups, rfl, hg⟩ := ih h
      exact ⟨c :: groups, rfl, .more hc (Nat.not_lt.mp hle) hg⟩

theorem readTag_eq_some_iff :
    readTag identifier s = some (n, rest) ↔
      ∃ groups, s = groups ++ rest ∧ TagOctets .basic identifier groups n := by
  by_cases hi : identifier.toNat % 32 = 31
  · rw [readTag, if_pos hi]
    refine ⟨fun h => ?_, ?_⟩
    · obtain ⟨groups, hs, hg⟩ := exists_of_readTagGroups h
      exact ⟨groups, hs, .long hi hg⟩
    · rintro ⟨groups, rfl, hg⟩
      cases hg with
      | short h => exact absurd hi h
      | long _ hg => exact hg.read rest
  · rw [readTag, if_neg hi]
    refine ⟨fun h => ?_, ?_⟩
    · cases h
      exact ⟨[], rfl, .short hi⟩
    · rintro ⟨groups, rfl, hg⟩
      cases hg with
      | short _ => rfl
      | long h _ => exact absurd h hi

theorem tooLong_eq : tooLong = 2 ^ 63 := rfl

/-- A number below `2 ^ 63` has at most eight digits after its zeros. -/
theorem length_dropWhile_le {digits : Bytes} (h : BigEndian.value digits < 2 ^ 63) :
    (digits.dropWhile (· == 0)).length ≤ 8 := by
  by_contra hl
  rcases e : digits.dropWhile (· == 0) with _ | ⟨x, t⟩
  · rw [e] at hl
    exact hl (Nat.zero_le _)
  have hx : x ≠ 0 := by
    have := List.head?_dropWhile_not (· == (0 : UInt8)) digits
    rw [e] at this
    simpa using this
  have ht : 8 ≤ t.length := by
    rw [e, List.length_cons] at hl
    omega
  -- With nine digits, the first of them not zero, the number would be too large.
  refine absurd h (Nat.not_lt.mpr ?_)
  calc 2 ^ 63 ≤ 256 ^ 8 := by decide
    _ ≤ 256 ^ t.length := Nat.pow_le_pow_right (by decide) ht
    _ ≤ BigEndian.value (x :: t) := BigEndian.le_value_of_head_ne_zero hx
    _ = BigEndian.value digits := by rw [← e, BigEndian.value_dropWhile_zero]

theorem LengthOctets.read {counts : Bytes} (h : LengthOctets rules counts length)
    (hrest : 2 ≤ counts.length → rest ≠ []) :
    readLength (counts ++ rest) = some (length, rest) := by
  cases h with
  | short hc => simp [readLength, hc]
  | indefinite => simp [readLength]
  | @long _ c digits hc hd hv _ =>
      have hpos : 0 < c.toNat % 128 := by
        have hlt : 128 < c.toNat := UInt8.lt_iff_toNat_lt.mp hc
        have hlt' := c.toNat_lt
        omega
      have hr : rest ≠ [] := hrest (by rw [List.length_cons]; omega)
      have hlen := List.length_pos_iff.mpr hr
      have h₁ : ¬ c < 0x80 := UInt8.not_lt.mpr (UInt8.le_of_lt hc)
      have h₂ : c ≠ 0x80 := fun e => UInt8.lt_irrefl _ (e ▸ hc)
      simp only [List.cons_append, readLength, if_neg h₁, if_neg h₂, ← hd, List.take_left,
        List.drop_left, BigEndian.value_dropWhile_zero]
      rw [if_neg]
      rw [List.length_append, tooLong_eq]
      have := length_dropWhile_le hv
      omega

theorem exists_of_readLength (h : readLength s = some (length, rest)) :
    ∃ counts, s = counts ++ rest ∧ LengthOctets .basic counts length ∧
      (2 ≤ counts.length → rest ≠ []) := by
  cases s with
  | nil => cases h
  | cons c s =>
      simp only [readLength] at h
      by_cases h₁ : c < 0x80
      · rw [if_pos h₁] at h
        cases h
        exact ⟨[c], rfl, .short h₁, fun hl => absurd hl (Nat.lt_irrefl 1)⟩
      rw [if_neg h₁] at h
      by_cases h₂ : c = 0x80
      · rw [if_pos h₂] at h
        cases h
        exact ⟨[c], rfl, h₂ ▸ .indefinite, fun hl => absurd hl (Nat.lt_irrefl 1)⟩
      rw [if_neg h₂] at h
      split at h
      · cases h
      rename_i hn
      simp only [BigEndian.value_dropWhile_zero, not_or, Nat.not_lt, Nat.not_le, tooLong_eq] at hn h
      cases h
      have hd : (s.take (c.toNat % 128)).length = c.toNat % 128 := by
        rw [List.length_take]
        omega
      refine ⟨c :: s.take (c.toNat % 128), by simp, .long ?_ hd hn.2.2 ?_, fun _ e => ?_⟩
      · exact UInt8.lt_of_le_of_ne (UInt8.not_lt.mp h₁) (Ne.symm h₂)
      · intro hrules
        cases hrules
      · have := congrArg List.length e
        rw [List.length_drop, List.length_nil] at this
        omega

/-- **The reader finds a header** exactly where octets announce it under the basic rules. -/
theorem read?_eq_some_iff :
    read? s = some (header, body) ↔
      ∃ octets, s = octets ++ body ∧ Announces .basic octets header body := by
  constructor
  · intro h
    cases s with
    | nil => cases h
    | cons identifier s =>
        simp only [read?] at h
        rcases hTag : readTag identifier s with _ | ⟨tag, s'⟩
        · rw [hTag] at h
          cases h
        rw [hTag] at h
        rcases hLength : readLength s' with _ | ⟨length, body'⟩
        · simp only [hLength] at h
          cases h
        simp only [hLength] at h
        split at h
        · rename_i hfits
          cases h
          obtain ⟨groups, rfl, hg⟩ := readTag_eq_some_iff.mp hTag
          obtain ⟨counts, rfl, hc, hm⟩ := exists_of_readLength hLength
          exact ⟨identifier :: (groups ++ counts), by simp, .mk rfl rfl hg hc hm hfits⟩
        · cases h
  · rintro ⟨octets, rfl, h⟩
    obtain @⟨_, groups, counts, _, body, hClass, hConstructed, hTag, hLength, hMore, hFits⟩ := h
    have hr := readTag_eq_some_iff.mpr ⟨groups, List.append_assoc groups counts body, hTag⟩
    rw [List.cons_append, read?, hr]
    simp only [hLength.read hMore, ← hClass, ← hConstructed]
    exact if_pos hFits

/-! ### More and fewer octets after the value -/

theorem fits_append (h : header.fits body = true) (t : Bytes) : header.fits (body ++ t) = true := by
  rw [fits] at h ⊢
  split <;> simp_all
  omega

theorem Announces.append (h : Announces rules octets header body) (t : Bytes) :
    Announces rules octets header (body ++ t) := by
  obtain ⟨hClass, hConstructed, hTag, hLength, hMore, hFits⟩ := h
  exact .mk hClass hConstructed hTag hLength (fun hl e => hMore hl (List.append_eq_nil_iff.mp e).1)
    (fits_append hFits t)

/-- What is announced may be followed by any octets that contain the value. -/
theorem Announces.of_fits {body' : Bytes} (h : Announces rules octets header body)
    (hf : header.fits body' = true) (hb : body' = [] → body = []) :
    Announces rules octets header body' := by
  obtain ⟨hClass, hConstructed, hTag, hLength, hMore, -⟩ := h
  exact .mk hClass hConstructed hTag hLength (fun hl e => hMore hl (hb e)) hf

theorem TagOctets.basic {groups : Bytes} (h : TagOctets rules identifier groups n) :
    TagOctets .basic identifier groups n := by
  cases h with
  | short h => exact .short h
  | long h hg => exact .long h hg

theorem LengthOctets.basic {counts : Bytes} (h : LengthOctets rules counts length) :
    LengthOctets .basic counts length := by
  cases h with
  | short h => exact .short h
  | indefinite => exact .indefinite
  | long hc hd hv _ => exact .long hc hd hv nofun

/-- What keeps to the distinguished rules keeps to the basic ones. -/
theorem Announces.basic (h : Announces rules octets header body) :
    Announces .basic octets header body := by
  obtain ⟨hClass, hConstructed, hTag, hLength, hMore, hFits⟩ := h
  exact .mk hClass hConstructed hTag.basic hLength.basic hMore hFits

theorem Announces.ne_nil (h : Announces rules octets header body) : octets ≠ [] := by
  cases h
  exact List.cons_ne_nil _ _

theorem Announces.length_lt (h : Announces rules octets header body)
    (hn : header.length = some n) : n < 2 ^ 63 := by
  obtain ⟨-, -, -, hLength, -, -⟩ := h
  rw [hn] at hLength
  cases hLength with
  | short hc => exact lt_trans (UInt8.toNat_lt _) (by decide)
  | long _ _ hv _ => exact hv

theorem Announces.length_le (h : Announces rules octets header body)
    (hn : header.length = some n) : n ≤ body.length := by
  obtain ⟨-, -, -, -, -, hFits⟩ := h
  rw [fits, hn] at hFits
  exact of_decide_eq_true hFits

/-- A definite value and what follows it. -/
theorem Announces.exists_append (h : Announces rules octets header body)
    (hn : header.length = some n) : ∃ v u, body = v ++ u ∧ n = v.length :=
  ⟨body.take n, body.drop n, (List.take_append_drop n body).symm,
    (List.length_take_of_le (h.length_le hn)).symm⟩

/-! ### Distinguished octets -/

/-- The identifier octet is made of class, constructed bit and tag number. -/
theorem identifier_ext {a b : UInt8}
    (hClass : TagClass.ofIdentifier a = .ofIdentifier b)
    (hConstructed : decide (a.toNat / 32 % 2 = 1) = decide (b.toNat / 32 % 2 = 1))
    (hTag : a.toNat % 32 = b.toNat % 32) : a = b := by
  have hc : a.toNat / 64 = b.toNat / 64 := by
    have ha := a.toNat_lt
    have hb := b.toNat_lt
    simp only [TagClass.ofIdentifier, UInt8.lt_iff_toNat_lt, UInt8.reduceToNat] at hClass
    split_ifs at hClass <;> omega
  rw [decide_eq_decide] at hConstructed
  exact UInt8.toNat_inj.mp (by omega)

theorem toNat_longOctet {k : Nat} (h : k ≤ 127) : (UInt8.ofNat (0x80 + k)).toNat = 0x80 + k := by
  rw [UInt8.toNat_ofNat']
  omega

/-- The octets that are written for a length keep to all rules. -/
theorem lengthOctets_der (hn : n < 2 ^ 63) :
    LengthOctets rules (Der.lengthOctets n) (some n) := by
  rw [Der.lengthOctets]
  by_cases h : n < 128
  · have hv : (UInt8.ofNat n).toNat = n := by
      rw [UInt8.toNat_ofNat']
      omega
    have hc : UInt8.ofNat n < 0x80 := UInt8.lt_iff_toNat_lt.mpr (hv.symm ▸ h)
    rw [if_pos h]
    have hshort : LengthOctets rules [UInt8.ofNat n] (some (UInt8.ofNat n).toNat) := .short hc
    rwa [hv] at hshort
  rw [if_neg h]
  have hle : BigEndian.octetCount n ≤ 127 :=
    BigEndian.octetCount_le_iff.mpr (lt_trans hn (by decide))
  have hpos : 0 < BigEndian.octetCount n := BigEndian.octetCount_pos (by omega)
  have hv := toNat_longOctet hle
  have hval := BigEndian.value_encode_octetCount n
  have hlong := @LengthOctets.long rules (UInt8.ofNat (0x80 + BigEndian.octetCount n))
    (BigEndian.encode (BigEndian.octetCount n) n) ?_ ?_ ?_ ?_
  · rwa [hval] at hlong
  · exact UInt8.lt_iff_toNat_lt.mpr (by rw [hv]; exact Nat.lt_add_of_pos_right hpos)
  · rw [BigEndian.length_encode, hv]
    omega
  · rwa [hval]
  · exact fun _ => ⟨BigEndian.head?_encode_octetCount n, hval.symm ▸ Nat.not_lt.mp h⟩

theorem LengthOctets.eq_der {counts : Bytes} (h : LengthOctets .distinguished counts length) :
    ∃ n, length = some n ∧ counts = Der.lengthOctets n := by
  cases h with
  | @short _ c hc =>
      refine ⟨c.toNat, rfl, ?_⟩
      have hlt : c.toNat < 128 := UInt8.lt_iff_toNat_lt.mp hc
      rw [Der.lengthOctets, if_pos hlt, UInt8.ofNat_toNat]
  | @long _ c digits hc hd hv hmin =>
      obtain ⟨hz, hle⟩ := hmin rfl
      refine ⟨BigEndian.value digits, rfl, ?_⟩
      rw [Der.lengthOctets, if_neg (Nat.not_lt.mpr hle), BigEndian.octetCount_value hz,
        BigEndian.encode_value]
      congr 1
      have hlt : 128 < c.toNat := UInt8.lt_iff_toNat_lt.mp hc
      have hlt' := c.toNat_lt
      refine UInt8.toNat_inj.mp ?_
      rw [UInt8.toNat_ofNat']
      omega

/-- What an identifier octet without a large tag number says in front of `n` octets. -/
def der (identifier : UInt8) (n : Nat) : Header :=
  ⟨.ofIdentifier identifier, identifier.toNat / 32 % 2 = 1, identifier.toNat % 32, some n⟩

/-- A tag number below 31 takes no octets of its own. -/
theorem announces_of_short {counts : Bytes} (hi : identifier.toNat % 32 ≠ 31)
    (hl : LengthOctets rules counts length) (hm : 2 ≤ counts.length → body ≠ [])
    (hf : Header.fits ⟨.ofIdentifier identifier, identifier.toNat / 32 % 2 = 1,
      identifier.toNat % 32, length⟩ body = true) :
    Announces rules (identifier :: counts)
      ⟨.ofIdentifier identifier, identifier.toNat / 32 % 2 = 1, identifier.toNat % 32, length⟩
      body :=
  @Announces.mk rules identifier [] counts _ body rfl rfl (.short hi) hl hm hf

theorem announces_der (hi : identifier.toNat % 32 ≠ 31) (hn : n < 2 ^ 63)
    (hle : n ≤ body.length) :
    Announces rules (identifier :: Der.lengthOctets n) (der identifier n) body := by
  refine announces_of_short hi (lengthOctets_der hn) (fun hl hb => ?_) (decide_eq_true hle)
  -- Only a short length can be followed by nothing.
  rw [hb, List.length_nil, Nat.le_zero] at hle
  rw [hle] at hl
  exact absurd hl (by decide)

/-- **The distinguished octets of a header** are the ones that are written. -/
theorem Announces.eq_der (h : Announces .distinguished octets (der identifier n) body) :
    octets = identifier :: Der.lengthOctets n := by
  obtain ⟨hClass, hConstructed, hTag, hLength, -, -⟩ := h
  obtain ⟨m, hm, rfl⟩ := hLength.eq_der
  obtain rfl : n = m := Option.some.inj hm
  generalize ht : (der identifier n).tag = tag at hTag
  cases hTag with
  | short hi => rw [identifier_ext hClass hConstructed ht]; rfl

/-- Length octets are few. -/
theorem length_lengthOctets_le (hn : n < 256 ^ 8) : (Der.lengthOctets n).length ≤ 9 := by
  rw [Der.lengthOctets]
  split_ifs
  · exact Nat.le_of_ble_eq_true rfl
  · rw [List.length_cons, BigEndian.length_encode]
    exact Nat.succ_le_succ (BigEndian.octetCount_le_iff.mpr hn)

/-- Of the lengths that are written only those below `2 ^ 63` are read. -/
theorem lt_of_readLength_der (hn : n < 256 ^ 127)
    (h : readLength (Der.lengthOctets n ++ s) = some (length, rest)) : n < 2 ^ 63 := by
  rw [Der.lengthOctets] at h
  by_cases hs : n < 128
  · omega
  rw [if_neg hs] at h
  have hle : BigEndian.octetCount n ≤ 127 := BigEndian.octetCount_le_iff.mpr hn
  have hpos : 0 < BigEndian.octetCount n := BigEndian.octetCount_pos (by omega)
  have hv := toNat_longOctet hle
  clear hs
  obtain ⟨counts, hs, hc, -⟩ := exists_of_readLength h
  clear h
  generalize UInt8.ofNat (0x80 + BigEndian.octetCount n) = c at hs hv
  cases hc with
  | short hc =>
      cases hs
      have : c.toNat < 128 := UInt8.lt_iff_toNat_lt.mp hc
      omega
  | indefinite =>
      cases hs
      exact absurd hv.symm (Nat.ne_of_gt (Nat.lt_add_of_pos_right hpos))
  | @long _ c' digits _ hd hlt _ =>
      obtain ⟨rfl, e⟩ := List.cons.inj hs
      rw [hv] at hd
      have hdigits := (List.append_inj e (by rw [BigEndian.length_encode]; omega)).1
      rwa [← hdigits, BigEndian.value_encode_octetCount] at hlt

theorem lt_of_read?_der (identifier : UInt8) {found : Header × Bytes}
    (hi : identifier.toNat % 32 ≠ 31)
    (hn : n < 256 ^ 127) (h : read? (identifier :: (Der.lengthOctets n ++ s)) = some found) :
    n < 2 ^ 63 := by
  rw [read?, readTag, if_neg hi] at h
  rcases hl : readLength (Der.lengthOctets n ++ s) with _ | ⟨length, rest⟩
  · simp only [hl] at h
    cases h
  · exact lt_of_readLength_der hn hl

end Header

end CurveKeys.Asn1
