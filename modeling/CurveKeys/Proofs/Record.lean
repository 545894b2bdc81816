import CurveKeys.Proofs.Asn1.BitString
import CurveKeys.Proofs.Asn1.Element
import CurveKeys.Record

/-!
# Record — the octets of a record

Which octets frame given parts as a record (`Record.Framed`), and that these are the ones that are
parsed.  The basic rules leave a choice at every value of a record, the distinguished rules leave
none: the record that is written is the one that keeps to them.

* `Record.Framed.parse`: what is parsed where octets frame parts of any sizes.
* `Record.parse_eq_ok_iff`: the parser accepts exactly what frames parts of the sizes of keys.
* `Record.Segmented.framed`: what is framed where the public key is a bit string in segments.
* `Record.framed_encode`, `Record.Framed.eq_encode`: the distinguished octets are those written.
-/

namespace CurveKeys.Record

open Asn1

/-- The octets that frame parts as a record. -/
inductive Framed : Rules → Bytes → Parts → Prop where
  | mk {rules : Rules} {r version secret parameters publicKey bits : Bytes} {parts : Parts} :
      Carries rules Tag.integer.number version [1] →
      Carries rules Tag.octetString.number secret parts.privateOctets →
      Explicit rules RecordPart.parameters.tag parameters parts.parameters →
      Explicit rules RecordPart.publicKey.tag publicKey bits →
      Carries rules Tag.bitString.number bits (0 :: parts.publicOctets) →
      Sequence rules r (version ++ (secret ++ (parameters ++ publicKey))) →
      Framed rules r parts

/-- The octets of a record of given private octets and parameters, whose public key is a bit string
in segments. -/
inductive Segmented : Bytes → Bytes → Bytes → List Bytes → Prop where
  | mk {r version secret parameters publicKey bits o c : Bytes} {segments : List Bytes} :
      Carries .basic Tag.integer.number version [1] →
      Carries .basic Tag.octetString.number secret o →
      Explicit .basic RecordPart.parameters.tag parameters c →
      Explicit .basic RecordPart.publicKey.tag publicKey bits →
      BitString bits segments →
      Sequence .basic r (version ++ (secret ++ (parameters ++ publicKey))) →
      Segmented r o c segments

/-- As many octets as one of the two forms of a public key has. -/
def KeyLength (p : Bytes) : Prop :=
  p.length = PublicKey.compressedSize ∨ p.length = PublicKey.uncompressedSize

theorem KeyLength.le {p : Bytes} (h : KeyLength p) : p.length ≤ 65 := by
  rcases h with h | h
  · rw [h]
    decide
  · exact h.le

/-- The sizes that the parts of a record can have. -/
structure Parts.Sized (parts : Parts) : Prop where
  privateOctets : 1 ≤ parts.privateOctets.length ∧ parts.privateOctets.length ≤ PrivateKey.size
  publicOctets : KeyLength parts.publicOctets

variable {rules : Rules} {r : Bytes} {parts : Parts}

/-- The octets that count the unused bits of all segments but the first are framed as octets of the
public key. -/
theorem Segmented.framed {o c first : Bytes} {rest : List Bytes}
    (h : Segmented r o c (first :: rest)) :
    Framed .basic r ⟨o, c, first ++ (rest.map segmentValue).flatten⟩ := by
  obtain ⟨hv, hs, hp, hk, hb, hr⟩ := h
  exact .mk hv hs hp hk hb.carries hr

/-! ### Elements -/

theorem ok_bind {ε α β : Type} (a : α) (f : α → Except ε β) : (Except.ok a >>= f) = f a := rfl

/-- A sequence of checks succeeds where each of them does. -/
theorem bind_eq_ok_iff {ε α β : Type} {x : Except ε α} {f : α → Except ε β} {b : β} :
    x >>= f = .ok b ↔ ∃ a, x = .ok a ∧ f a = .ok b := by
  cases x with
  | error e => exact ⟨nofun, fun ⟨_, h, _⟩ => nomatch h⟩
  | ok a => exact ⟨fun h => ⟨a, rfl, h⟩, fun ⟨_, h, hf⟩ => by cases h; exact hf⟩

theorem checkVersion_eq_ok_iff {element : Element} :
    checkVersion element = .ok () ↔ element = .universal Tag.integer.number [1] := by
  refine ⟨fun h => ?_, ?_⟩
  · cases element with
    | universal tag b =>
        rw [checkVersion] at h
        split_ifs at h with ht hb
        rw [not_not.mp ht, not_not.mp hb]
    | collection | tagged => cases h
  · rintro rfl
    rfl

theorem privateOctets_eq_ok_iff {element : Element} {o : Bytes} :
    privateOctets element = .ok o ↔
      element = .universal Tag.octetString.number o ∧
        1 ≤ o.length ∧ o.length ≤ PrivateKey.size := by
  refine ⟨fun h => ?_, ?_⟩
  · cases element with
    | universal tag b =>
        rw [privateOctets] at h
        split_ifs at h with ht hb
        cases h
        rw [not_or, Nat.not_lt, Nat.not_lt] at hb
        exact ⟨by rw [not_not.mp ht], hb⟩
    | collection | tagged => cases h
  · rintro ⟨rfl, h₁, h₂⟩
    rw [privateOctets, if_neg (not_not.mpr rfl),
      if_neg (not_or.mpr ⟨Nat.not_lt.mpr h₁, Nat.not_lt.mpr h₂⟩)]

theorem openExplicit_eq_ok_iff {part : RecordPart} {tag : Nat} {element : Element}
    {content : Bytes} :
    openExplicit part tag element = .ok content ↔
      ∃ t, element = .tagged t ∧ Explicit .basic tag t content := by
  refine ⟨fun h => ?_, ?_⟩
  · cases element with
    | tagged t =>
        rw [openExplicit] at h
        rcases hr : Header.read? t with _ | ⟨⟨tagClass, constructed, tag', length⟩, body⟩
        · rw [hr] at h
          cases h
        simp only [hr] at h
        split_ifs at h with hc ht hcons hl
        cases h
        obtain rfl := not_not.mp hc
        obtain rfl := not_not.mp ht
        obtain rfl : constructed = true := by simpa using hcons
        obtain rfl := not_not.mp hl
        obtain ⟨octets, rfl, ha⟩ := Header.read?_eq_some_iff.mp hr
        exact ⟨_, rfl, octets, rfl, ha⟩
    | universal | collection => cases h
  · rintro ⟨t, rfl, h⟩
    have hr := h.read? []
    rw [List.append_nil, List.append_nil] at hr
    simp [openExplicit, hr]

theorem openBitString_eq_ok_iff {s b : Bytes} :
    openBitString s = .ok b ↔ Carries .basic Tag.bitString.number s (0 :: b) := by
  refine ⟨fun h => ?_, fun h => ?_⟩
  · rw [openBitString] at h
    rcases hb : readBitString s with _ | ⟨content, rest⟩
    · rw [hb] at h
      cases h
    rw [hb] at h
    rcases rest with _ | ⟨_, _⟩
    · rcases content with _ | ⟨unused, content⟩
      · cases h
      simp only at h
      split_ifs at h with hu
      cases h
      subst hu
      rw [readBitString] at hb
      rcases hr : Header.read? s with _ | ⟨header, body⟩
      · rw [hr] at hb
        cases hb
      simp only [hr] at hb
      split_ifs at hb with hc
      obtain ⟨t, rfl, ht, -⟩ := exists_of_readContent hr hc.1 hb (List.cons_ne_nil _ _)
      rw [List.append_nil]
      exact hc.2 ▸ ht
    · cases h
  · obtain ⟨header, body, hr, hc, ht, hb⟩ := h.readContent rfl []
    rw [List.append_nil] at hr
    simp [openBitString, readBitString, hr, hc, ht, hb]

/-! ### Records -/

theorem Framed.basic (h : Framed rules r parts) : Framed .basic r parts := by
  obtain ⟨hv, hs, hp, hk, hb, hr⟩ := h
  exact .mk hv.basic hs.basic hp.basic hk.basic hb.basic hr.basic

/-- What is found in a framed record, before any size is looked at, and what is left after it. -/
theorem Framed.elements (h : Framed rules r parts) (t : Bytes) :
    ∃ parameters publicKey bits,
      readSequence (r ++ t) = some ([.universal Tag.integer.number [1],
        .universal Tag.octetString.number parts.privateOctets, parameters, publicKey], t) ∧
      openExplicit .parameters RecordPart.parameters.tag parameters = .ok parts.parameters ∧
      openExplicit .publicKey RecordPart.publicKey.tag publicKey = .ok bits ∧
      openBitString bits = .ok parts.publicOctets := by
  obtain ⟨hv, hs, hp, hk, hb, hr⟩ := h
  refine ⟨_, _, _, hr.readSequence (fun marked rest hrest => ?_) t,
    openExplicit_eq_ok_iff.mpr ⟨_, rfl, hp.basic⟩, openExplicit_eq_ok_iff.mpr ⟨_, rfl, hk.basic⟩,
    openBitString_eq_ok_iff.mpr hb.basic⟩
  simp only [List.append_assoc]
  rw [readElements_cons (hv.readElement rfl (by decide) (by decide) _) (by decide),
    readElements_cons (hs.readElement rfl (by decide) (by decide) _) nofun,
    readElements_cons (hp.readElement _) nofun, readElements_cons (hk.readElement _) nofun,
    readElements_endMark hrest]
  rfl

/-- A record is framed by what its elements are read from. -/
theorem framed_of_elements {parameters publicKey : Element} {bits : Bytes}
    (hr : readSequence r = some ([.universal Tag.integer.number [1],
      .universal Tag.octetString.number parts.privateOctets, parameters, publicKey], []))
    (ho : parts.privateOctets ≠ [])
    (hp : openExplicit .parameters RecordPart.parameters.tag parameters = .ok parts.parameters)
    (hk : openExplicit .publicKey RecordPart.publicKey.tag publicKey = .ok bits)
    (hb : openBitString bits = .ok parts.publicOctets) : Framed .basic r parts := by
  obtain ⟨marked, body, he, hseq⟩ := exists_of_readSequence hr
  -- Each element leaves the octets in which the next one is found.
  obtain ⟨t₁, h₁, he₁⟩ := exists_of_readElements_cons he
  obtain ⟨t₂, h₂, he₂⟩ := exists_of_readElements_cons he₁
  obtain ⟨t₃, h₃, he₃⟩ := exists_of_readElements_cons he₂
  obtain ⟨t₄, h₄, he₄⟩ := exists_of_readElements_cons he₃
  obtain ⟨version, rfl, hv, -⟩ := exists_of_readElement h₁ (List.cons_ne_nil _ _)
  obtain ⟨secret, rfl, hs, -⟩ := exists_of_readElement h₂ ho
  obtain ⟨p, rfl, hep⟩ := openExplicit_eq_ok_iff.mp hp
  obtain ⟨k, rfl, hek⟩ := openExplicit_eq_ok_iff.mp hk
  refine .mk hv hs hep hek (openBitString_eq_ok_iff.mp hb) (hseq _ ?_)
  rw [hep.eq_append h₃, hek.eq_append h₄, eq_endMark_of_readElements he₄]
  simp only [List.append_assoc]

/-- **What is parsed** where octets frame parts of any sizes. -/
theorem Framed.parse (h : Framed rules r parts) :
    parse r =
      if parts.privateOctets.length < 1 ∨ PrivateKey.size < parts.privateOctets.length then
        .error (.privateLength parts.privateOctets.length)
      else if parts.publicOctets.length ≠ PublicKey.compressedSize ∧
          parts.publicOctets.length ≠ PublicKey.uncompressedSize then
        .error (.publicLength parts.publicOctets.length)
      else .ok parts := by
  obtain ⟨parameters, publicKey, bits, hr, hp, hk, hb⟩ := h.elements []
  rw [List.append_nil] at hr
  have hne : r.isEmpty = false := by
    cases r with
    | nil => cases hr
    | cons => rfl
  rw [Record.parse, hne, if_neg Bool.false_ne_true, hr]
  simp only [List.isEmpty_nil, Bool.not_true, Bool.false_eq_true, if_false, hp, hk, hb, ok_bind,
    checkVersion_eq_ok_iff.mpr rfl, privateOctets, ne_eq, not_true_eq_false]
  split_ifs <;> rfl

/-- **A framed record ends** where its framing does: whatever follows it is one fault too many. -/
theorem Framed.parse_append (h : Framed rules r parts) {t : Bytes} (ht : t ≠ []) :
    Record.parse (r ++ t) = .error (.trailing t.length) := by
  obtain ⟨_, _, _, hr, -⟩ := h.elements t
  have hne : (r ++ t).isEmpty = false :=
    List.isEmpty_eq_false_iff.mpr (List.append_ne_nil_of_right_ne_nil r ht)
  have ht' : t.isEmpty = false := List.isEmpty_eq_false_iff.mpr ht
  rw [Record.parse, hne, if_neg Bool.false_ne_true, hr]
  simp only [ht', Bool.not_false, if_true]

/-- **The parser accepts** exactly what frames parts of the sizes of keys. -/
theorem parse_eq_ok_iff : parse r = .ok parts ↔ Framed .basic r parts ∧ parts.Sized := by
  refine ⟨fun h => ?_, ?_⟩
  · rw [Record.parse] at h
    split_ifs at h with he
    rcases hr : readSequence r with _ | ⟨elements, after⟩
    · rw [hr] at h
      cases h
    simp only [hr] at h
    split_ifs at h with ha
    rw [Bool.not_eq_true, Bool.not_eq_false', List.isEmpty_iff] at ha
    subst ha
    split at h
    · rename_i e₁ e₂ e₃ e₄
      obtain ⟨_, hv, h⟩ := bind_eq_ok_iff.mp h
      obtain ⟨o, ho, h⟩ := bind_eq_ok_iff.mp h
      obtain ⟨c, hc, h⟩ := bind_eq_ok_iff.mp h
      obtain ⟨bits, hk, h⟩ := bind_eq_ok_iff.mp h
      obtain ⟨p, hb, h⟩ := bind_eq_ok_iff.mp h
      split_ifs at h with hl
      · cases h
      cases h
      obtain rfl := checkVersion_eq_ok_iff.mp hv
      obtain ⟨rfl, hlen⟩ := privateOctets_eq_ok_iff.mp ho
      refine ⟨framed_of_elements hr (List.ne_nil_of_length_pos hlen.1) hc hk hb, hlen, ?_⟩
      rwa [KeyLength, ← not_not (a := _ ∨ _), not_or]
    · cases h
  · rintro ⟨h, ⟨h₁, h₂⟩, hp⟩
    rw [h.parse, if_neg (not_or.mpr ⟨Nat.not_lt.mpr h₁, Nat.not_lt.mpr h₂⟩), if_neg]
    exact fun hn => hp.elim hn.1 hn.2

/-! ### Distinguished records -/

/-- The elements of the record that is written. -/
def encodedElements (parts : Parts) : List Bytes :=
  [Der.primitive .integer [1],
   Der.primitive .octetString parts.privateOctets,
   Der.explicit RecordPart.parameters.tag parts.parameters,
   Der.explicit RecordPart.publicKey.tag (Der.bitString parts.publicOctets)]

theorem encode_eq (parts : Parts) : encode parts = Der.sequence (encodedElements parts) := rfl

theorem flatten_encodedElements (parts : Parts) :
    (encodedElements parts).flatten =
      Der.primitive .integer [1] ++ (Der.primitive .octetString parts.privateOctets ++
        (Der.explicit RecordPart.parameters.tag parts.parameters ++
          Der.explicit RecordPart.publicKey.tag (Der.bitString parts.publicOctets))) := by
  simp only [encodedElements, List.flatten_cons, List.flatten_nil, List.append_nil]

/-- Elements that are written may be enclosed in any way that is allowed. -/
theorem framed_of_sequence (hl : (encodedElements parts).flatten.length < 2 ^ 63)
    (hr : Sequence rules r (encodedElements parts).flatten) : Framed rules r parts := by
  rw [flatten_encodedElements] at hl hr
  simp only [List.length_append] at hl
  refine .mk (carries_der .integer (by decide)) (carries_der .octetString ?_)
    (explicit_der (by decide) ?_) (explicit_der (by decide) ?_) (carries_der .bitString ?_) hr
  all_goals
    simp only [Der.primitive, Der.explicit, Der.bitString, Der.write, List.length_cons,
      List.length_append] at hl ⊢
    omega

/-- **The record that is written** keeps to all rules. -/
theorem framed_encode (hl : (encodedElements parts).flatten.length < 2 ^ 63) :
    Framed rules (encode parts) parts :=
  framed_of_sequence hl (sequence_der hl)

/-- A value is longer than its content. -/
theorem length_lt_write (identifier : UInt8) (content : Bytes) :
    content.length < (Der.write identifier content).length := by
  rw [Der.write, List.length_cons, List.length_append]
  omega

theorem length_encodedElements_lt_encode (parts : Parts) :
    (encodedElements parts).flatten.length < (encode parts).length :=
  length_lt_write _ _

/-- What is parsed of a record that is written. -/
theorem parse_encode {o c p : Bytes} (ho : 1 ≤ o.length) (hs : o.length ≤ PrivateKey.size)
    (hl : (encode ⟨o, c, p⟩).length < 2 ^ 63) :
    parse (encode ⟨o, c, p⟩) =
      if p.length ≠ PublicKey.compressedSize ∧ p.length ≠ PublicKey.uncompressedSize then
        .error (.publicLength p.length)
      else .ok ⟨o, c, p⟩ := by
  have hf : Framed .basic (encode ⟨o, c, p⟩) ⟨o, c, p⟩ :=
    framed_encode (lt_trans (length_encodedElements_lt_encode _) hl)
  rw [hf.parse, if_neg (not_or.mpr ⟨Nat.not_lt.mpr ho, Nat.not_lt.mpr hs⟩)]

/-- The octets that keep to the distinguished rules are those that are written. -/
theorem Framed.eq_encode (h : Framed .distinguished r parts) : r = encode parts := by
  obtain ⟨hv, hs, hp, hk, hb, hr⟩ := h
  rw [Carries.eq_der .integer hv, Carries.eq_der .octetString hs, hp.eq_der (by decide),
    hk.eq_der (by decide), Carries.eq_der .bitString hb] at hr
  refine Sequence.eq_der (encodedElements parts) ?_
  rw [flatten_encodedElements]
  exact hr

theorem length_write_le {identifier : UInt8} {content : Bytes} (h : content.length < 256 ^ 8) :
    (Der.write identifier content).length ≤ content.length + 10 := by
  have := Header.length_lengthOctets_le h
  rw [Der.write, List.length_cons, List.length_append]
  omega

/-- The length of a short value takes one octet. -/
theorem write_of_lt {identifier : UInt8} {content : Bytes} (h : content.length < 128) :
    Der.write identifier content = identifier :: UInt8.ofNat content.length :: content := by
  rw [Der.write, Der.lengthOctets, if_pos h, List.singleton_append]

theorem length_write_of_lt {identifier : UInt8} {content : Bytes} (h : content.length < 128) :
    (Der.write identifier content).length = content.length + 2 := by
  rw [write_of_lt h, List.length_cons, List.length_cons]

/-- The elements of a record are not much longer than the parameters. -/
theorem length_encodedElements_le (hs : parts.Sized) (hc : parts.parameters.length < 2 ^ 63) :
    (encodedElements parts).flatten.length ≤ parts.parameters.length + 200 := by
  have ho := hs.privateOctets.2
  have hp := hs.publicOctets
  simp only [KeyLength, PrivateKey.size, PublicKey.compressedSize,
    PublicKey.uncompressedSize] at ho hp
  have h₁ : (Der.primitive .octetString parts.privateOctets).length ≤ _ :=
    length_write_le (by omega)
  have h₂ : (Der.explicit RecordPart.parameters.tag parts.parameters).length ≤ _ :=
    length_write_le (by omega)
  have h₃ : (Der.bitString parts.publicOctets).length ≤ _ :=
    length_write_le (by rw [List.length_cons]; omega)
  rw [List.length_cons] at h₃
  have h₄ : (Der.explicit RecordPart.publicKey.tag (Der.bitString parts.publicOctets)).length ≤ _ :=
    length_write_le (by omega)
  have h₀ : (Der.primitive .integer [1]).length = 3 := rfl
  rw [flatten_encodedElements]
  simp only [List.length_append]
  omega

/-- The elements of a record that is read are not too long to be written. -/
theorem length_encodedElements_lt (hs : parts.Sized) (h : Framed .basic (encode parts) parts) :
    (encodedElements parts).flatten.length < 2 ^ 63 := by
  obtain ⟨-, -, ⟨_, -, ha⟩, -, -, hr⟩ := h
  have hc := ha.length_lt rfl
  -- The parameters are shorter than `2 ^ 63`; the reader bounds the whole by the same number.
  obtain ⟨found, hf⟩ := hr.exists_read?
  refine Header.lt_of_read?_der 0x30 (by decide) ?_ hf
  refine lt_of_le_of_lt (length_encodedElements_le hs hc) ?_
  refine lt_trans (b := 256 ^ 9) ?_ (by decide)
  omega

/-- The octets of a record that is read determine its parts. -/
theorem Framed.unique {parts' : Parts} (h : Framed rules r parts')
    (hp : Record.parse r = .ok parts) : parts' = parts := by
  rw [h.parse] at hp
  split_ifs at hp
  cases hp
  rfl

/-- **A record that is read** keeps to the distinguished rules exactly when it is the one that is
written. -/
theorem framed_distinguished_iff (hs : parts.Sized) (h : Framed .basic r parts) :
    Framed .distinguished r parts ↔ r = encode parts := by
  refine ⟨Framed.eq_encode, ?_⟩
  rintro rfl
  exact framed_encode (length_encodedElements_lt hs h)

end CurveKeys.Record
