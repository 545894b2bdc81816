import CurveKeys.Proofs.Record

/-!
# Record — framing values

A record frames values in two ways: behind an explicit tag, and in a bit string.  What is framed is
found again as it was, and only where its tag is expected and no bit is unused.  The routines that
write refuse what would take `sizeLimit` octets.

* `openExplicit_of_explicit`: what is found behind an explicit tag.
* `openBitString_primitive`: what is found in a bit string, by its first octet.
* `Record.set_unusedPlace`: the octet that counts unused bits, changed.
* `Record.wrapExplicit_eq`, `Record.encodeBitString_eq`: below the limit the distinguished form is
  written; `Record.wrapExplicit_failed`, `Record.encodeBitString_failed`: otherwise nothing is.
* `Record.framing_roundTrip`: values that are written are found again.
-/

namespace CurveKeys.Record

open Asn1 Header

variable {tag : Nat} {s content b : Bytes}

/-! ### Explicit tags -/

/-- **Behind an explicit tag** its content is found if the tag is the expected one. -/
theorem openExplicit_of_explicit (part : RecordPart) (expected : Nat)
    (h : Explicit .basic tag s content) :
    openExplicit part expected (.tagged s) =
      if tag = expected then .ok content else .error (.wrongTag part tag expected) := by
  have hr := h.read? []
  rw [List.append_nil, List.append_nil] at hr
  by_cases ht : tag = expected <;> simp [openExplicit, hr, ht]

/-! ### Bit strings -/

/-- A bit string of any content octets is read if the first of them counts at most seven bits. -/
theorem readBitString_primitive (hl : content.length < 2 ^ 63) :
    readBitString (Der.primitive .bitString content) =
      if content.head?.any (· ≤ 7) then some (content, []) else none := by
  have ha : Announces .basic (UInt8.ofNat Tag.bitString.number :: Der.lengthOctets content.length)
      (der (UInt8.ofNat Tag.bitString.number) content.length) content :=
    announces_der (by decide) hl le_rfl
  rw [der_primitive] at ha
  have hr : Header.read? (Der.primitive .bitString content) =
      some (⟨.universal, false, Tag.bitString.number, some content.length⟩, content) :=
    read?_eq_some_iff.mpr ⟨_, rfl, ha⟩
  have hv : validContent Tag.bitString.number content = content.head?.any (· ≤ 7) := rfl
  rw [readBitString, hr]
  simp only [and_self, if_true, readContent, Bool.false_eq_true, if_false, Option.map_some,
    List.take_length, List.drop_length, Option.filter_some, hv]

/-- **In a bit string** the octets are found behind a first octet that counts no unused bits. -/
theorem openBitString_primitive (unused : UInt8) (hl : b.length + 1 < 2 ^ 63) :
    openBitString (Der.primitive .bitString (unused :: b)) =
      if unused = 0 then .ok b
      else .error (if unused ≤ 7 then .unusedBits else .notBitString) := by
  have hlength : (unused :: b).length < 2 ^ 63 := hl
  rw [openBitString, readBitString_primitive hlength, List.head?_cons, Option.any_some]
  by_cases h₇ : unused ≤ 7
  · simp only [h₇, decide_true, if_true]
  · have h₀ : unused ≠ 0 := by
      rintro rfl
      exact h₇ (by decide)
    simp only [h₇, h₀, decide_false, if_false, Bool.false_eq_true]

/-- The place of the octet that counts unused bits: it stands in front of the octets. -/
def unusedPlace (b : Bytes) : Nat := (Der.bitString b).length - b.length - 1

theorem set_unusedPlace (b : Bytes) (unused : UInt8) :
    (Der.bitString b).set (unusedPlace b) unused = Der.primitive .bitString (unused :: b) := by
  have hb : Der.bitString b =
      (UInt8.ofNat Tag.bitString.number :: Der.lengthOctets (b.length + 1)) ++ 0 :: b := rfl
  have hplace : unusedPlace b =
      (UInt8.ofNat Tag.bitString.number :: Der.lengthOctets (b.length + 1)).length := by
    rw [unusedPlace, hb, List.length_append, List.length_cons (a := 0)]
    omega
  rw [hplace, hb, List.set_append_right _ _ le_rfl, Nat.sub_self, List.set_cons_zero]
  rfl

/-! ### Writing -/

theorem length_write_of_le {identifier : UInt8} (h : 128 ≤ content.length) :
    (Der.write identifier content).length =
      content.length + BigEndian.octetCount content.length + 2 := by
  rw [Der.write, Der.lengthOctets, if_neg (Nat.not_lt.mpr h), List.length_cons, List.length_append,
    List.length_cons, BigEndian.length_encode]
  omega

theorem wrapExplicit_eq (h : (Der.explicit tag content).length < sizeLimit) :
    wrapExplicit tag content = pure (Der.explicit tag content) :=
  if_pos h

theorem wrapExplicit_failed (h : sizeLimit ≤ (Der.explicit tag content).length) :
    ∃ failure note, wrapExplicit tag content = .fail failure note := by
  rw [wrapExplicit, if_neg (Nat.not_lt.mpr h)]
  exact ⟨_, _, rfl⟩

/-- A string whose length is a signed number of 32 bits is stored as it is. -/
theorem stored_of_lt (h : b.length < 2147483648) : stored b = b := by
  have ht : b.length % 4294967296 = b.length := Nat.mod_eq_of_lt (lt_trans h (by decide))
  rw [stored, ht, if_pos h, List.take_length]

theorem encodeBitString_eq (h : (Der.bitString b).length < sizeLimit) :
    encodeBitString b = pure (Der.bitString b) := by
  have hb : b.length + 1 < sizeLimit := lt_trans (length_lt_write _ (0 :: b)) h
  have hb' : b.length < sizeLimit := Nat.lt_of_succ_lt hb
  rw [encodeBitString, stored_of_lt (lt_trans hb' (by decide)), if_neg (Nat.not_le.mpr hb'),
    if_pos h]

theorem encodeBitString_failed (hb : b.length < 2147483648)
    (h : sizeLimit ≤ (Der.bitString b).length) :
    ∃ failure note, encodeBitString b = .fail failure note := by
  rw [encodeBitString, stored_of_lt hb, if_neg (Nat.not_lt.mpr h)]
  split_ifs <;> exact ⟨_, _, rfl⟩

/-- What gives one value below a limit, and fails from there on. -/
theorem result_eq_ok_iff_of_limit {x : Traced QueuedFailure Bytes} {v e : Bytes} {n limit : Nat}
    (hv : n < limit → x = pure v) (hf : limit ≤ n → ∃ failure note, x = .fail failure note) :
    x.result = .ok e ↔ n < limit ∧ e = v := by
  rcases Nat.lt_or_ge n limit with h | h
  · rw [hv h]
    exact ⟨fun he => ⟨h, (Except.ok.inj he).symm⟩, fun he => congrArg Except.ok he.2.symm⟩
  · obtain ⟨failure, note, hx⟩ := hf h
    rw [hx]
    exact iff_of_false (fun he => by cases he) fun he => Nat.not_lt.mpr h he.1

/-- **What is written behind an explicit tag**: the distinguished form if it is below the limit, and
nothing otherwise. -/
theorem result_wrapExplicit_eq_ok_iff {e : Bytes} :
    (wrapExplicit tag content).result = .ok e ↔
      (Der.explicit tag content).length < sizeLimit ∧ e = Der.explicit tag content :=
  result_eq_ok_iff_of_limit wrapExplicit_eq wrapExplicit_failed

/-- **What is written of a bit string** whose length is a signed number of 32 bits. -/
theorem result_encodeBitString_eq_ok_iff {e : Bytes} (hb : b.length < 2147483648) :
    (encodeBitString b).result = .ok e ↔
      (Der.bitString b).length < sizeLimit ∧ e = Der.bitString b :=
  result_eq_ok_iff_of_limit encodeBitString_eq (encodeBitString_failed hb)

/-! ### Both -/

/-- **Values that are written are found again.**  A content is written behind an explicit tag below
31, if its encoding takes fewer octets than the limit; it is found where that tag is expected, and
any other expected tag is named beside the one that stands there.  A string is written as a bit
string under the same condition; its octets are found, be there none or zeros at their end, and none
are found once the octet in front of them counts unused bits. -/
theorem framing_roundTrip (part : RecordPart) :
    (∀ tag content, tag < 31 → content.length < 2 ^ 31 →
      ((∃ e, (wrapExplicit tag content).result = .ok e) ↔
        (Der.explicit tag content).length < sizeLimit) ∧
      ∀ e, (wrapExplicit tag content).result = .ok e →
        openExplicit part tag (.tagged e) = .ok content ∧
        ∀ expected, expected ≠ tag →
          openExplicit part expected (.tagged e) = .error (.wrongTag part tag expected)) ∧
    ∀ b, b.length < 2 ^ 31 →
      ((∃ e, (encodeBitString b).result = .ok e) ↔ (Der.bitString b).length < sizeLimit) ∧
      ∀ e, (encodeBitString b).result = .ok e →
        openBitString e = .ok b ∧
        ∀ unused, unused ≠ 0 →
          openBitString (e.set (unusedPlace b) unused) =
            .error (if unused ≤ 7 then .unusedBits else .notBitString) := by
  constructor
  · intro tag content ht hc
    refine ⟨?_, fun e he => ?_⟩
    · simp only [result_wrapExplicit_eq_ok_iff, exists_and_left, exists_eq, and_true]
    obtain ⟨-, rfl⟩ := result_wrapExplicit_eq_ok_iff.mp he
    have h : Explicit .basic tag (Der.explicit tag content) content :=
      explicit_der ht (lt_trans hc (by decide))
    refine ⟨?_, fun expected hne => ?_⟩
    · rw [openExplicit_of_explicit part tag h, if_pos rfl]
    · rw [openExplicit_of_explicit part expected h, if_neg hne.symm]
  · intro b hb
    refine ⟨?_, fun e he => ?_⟩
    · simp only [result_encodeBitString_eq_ok_iff hb, exists_and_left, exists_eq, and_true]
    obtain ⟨-, rfl⟩ := (result_encodeBitString_eq_ok_iff hb).mp he
    have hl : b.length + 1 < 2 ^ 63 := lt_of_le_of_lt hb (by decide)
    refine ⟨openBitString_primitive 0 hl, fun unused hu => ?_⟩
    rw [set_unusedPlace, openBitString_primitive unused hl, if_neg hu]

/-- A content of this many octets takes `sizeLimit` octets behind an explicit tag. -/
theorem length_explicit_of_length_eq (h : content.length = 2147483641) :
    (Der.explicit tag content).length = sizeLimit := by
  have h₁ : 128 ≤ content.length := by
    rw [h]
    decide
  rw [Der.explicit, length_write_of_le h₁, h]
  decide

/-- A string of one octet less takes `sizeLimit` octets as a bit string. -/
theorem length_bitString_of_length_eq (h : b.length = 2147483640) :
    (Der.bitString b).length = sizeLimit := by
  have h₁ : (0 :: b).length = 2147483641 := congrArg Nat.succ h
  have h₂ : 128 ≤ (0 :: b).length := by
    rw [h₁]
    decide
  rw [Der.bitString, Der.primitive, length_write_of_le h₂, h₁]
  decide

/-- **The limit is met below `2 ^ 31`.**  A content whose encoding would take one octet less than
that is not written, and neither is a string whose encoding would. -/
theorem framing_sizeLimit :
    (Der.explicit 0 (List.replicate 2147483641 0)).length < 2 ^ 31 ∧
      (¬ ∃ e, (wrapExplicit 0 (List.replicate 2147483641 0)).result = .ok e) ∧
      ¬ ∃ e, (encodeBitString (List.replicate 2147483640 0)).result = .ok e := by
  have hcontent : (Der.explicit 0 (List.replicate 2147483641 0)).length = sizeLimit :=
    length_explicit_of_length_eq List.length_replicate
  have hstring : (Der.bitString (List.replicate 2147483640 0)).length = sizeLimit :=
    length_bitString_of_length_eq List.length_replicate
  refine ⟨by rw [hcontent]; decide, fun ⟨e, he⟩ => ?_, fun ⟨e, he⟩ => ?_⟩
  · exact Nat.lt_irrefl _ (hcontent.symm.trans_lt (result_wrapExplicit_eq_ok_iff.mp he).1)
  · have hb : (List.replicate 2147483640 (0 : UInt8)).length < 2147483648 := by
      rw [List.length_replicate]
      decide
    exact Nat.lt_irrefl _ (hstring.symm.trans_lt ((result_encodeBitString_eq_ok_iff hb).mp he).1)

/-- A content whose length takes an octet of its own behind the largest tag, and zeros. -/
theorem framing_roundTrip_long :
    openExplicit .publicKey 30 (.tagged (Der.explicit 30 (List.replicate 128 0xff))) =
        .ok (List.replicate 128 0xff) ∧
      openExplicit .publicKey 31 (.tagged (Der.explicit 30 (List.replicate 128 0xff))) =
        .error (.wrongTag .publicKey 30 31) ∧
      openBitString (Der.bitString (List.replicate 127 0)) = .ok (List.replicate 127 0) ∧
      openBitString ((Der.bitString (List.replicate 127 0)).set
        (unusedPlace (List.replicate 127 0)) 1) = .error .unusedBits ∧
      openBitString ((Der.bitString []).set 2 8) = .error .notBitString := by
  obtain ⟨explicit, bits⟩ := framing_roundTrip .publicKey
  have hexplicit : (Der.explicit 30 (List.replicate 128 0xff)).length < sizeLimit :=
    lt_of_le_of_lt (length_write_le (by rw [List.length_replicate]; decide))
      (by rw [List.length_replicate]; decide)
  have hbits : (Der.bitString (List.replicate 127 0)).length < sizeLimit :=
    lt_of_le_of_lt (length_write_le (by rw [List.length_cons, List.length_replicate]; decide))
      (by rw [List.length_cons, List.length_replicate]; decide)
  obtain ⟨found, other⟩ := (explicit 30 (List.replicate 128 0xff) (by decide)
    (by rw [List.length_replicate]; decide)).2 _
    (result_wrapExplicit_eq_ok_iff.mpr ⟨hexplicit, rfl⟩)
  obtain ⟨zeros, changed⟩ := (bits (List.replicate 127 0)
    (by rw [List.length_replicate]; decide)).2 _
    ((result_encodeBitString_eq_ok_iff (by rw [List.length_replicate]; decide)).mpr ⟨hbits, rfl⟩)
  obtain ⟨-, empty⟩ := (bits [] (by decide)).2 _
    ((result_encodeBitString_eq_ok_iff (by decide)).mpr ⟨by decide, rfl⟩)
  exact ⟨found, other 31 (by decide), zeros, changed 1 (by decide), empty 8 (by decide)⟩

end CurveKeys.Record
