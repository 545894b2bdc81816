import CurveKeys.Proofs.Framing
import CurveKeys.Proofs.Keys.Derivation
import CurveKeys.Proofs.Keys.Encoding

/-!
# Keys — what a record is worth

What a record is worth depends on its private and its public octets only: the parameters it carries
and the way it is framed do not matter.

* `Record.Verdict`: the outcome for given private and public octets, fault by fault in the order of
  the checks; there is one (`Record.Verdict.unique`).
* `Record.Parts.toPair_verdict`, `KeyPair.exists_of_ofRecord`: well-formed parts get their verdict,
  and a pair that is read comes from such parts.
* `KeyPair.writeRecord_eq`: what is written of a pair, which never fails.
* `KeyPair.Matched.ofRecord_toRecord`: a pair whose keys match is read back from its own record.
* `KeyPair.ofRecord_sound`: what a record that is accepted says of its pair, and
  `KeyPair.ofRecord_segmentedRecord`, a key that its bit string does not stand for.
* `KeyPair.ofRecord_malformed_iff`: what is refused as malformed.
-/

namespace CurveKeys

open Curve Asn1 Asn1.Header

/-! ### Encoded public keys -/

namespace PublicKey

theorem supportedTag?_encode (k : PublicKey) : Record.supportedTag? k.encode = none := by
  refine if_pos ?_
  rw [tag]
  split_ifs
  · exact .inr (.inl rfl)
  · exact .inl rfl
  · exact .inr (.inr rfl)

end PublicKey

namespace Record

/-- The public octets begin with a tag that is supported. -/
def KeyTag (p : Bytes) : Prop :=
  ∃ tag rest, p = tag :: rest ∧ (tag = 0x02 ∨ tag = 0x03 ∨ tag = 0x04)

/-- The outcome for a record with given private and public octets.  The private octets denote a
number, which counts by its remainder; the public octets must be the encoding of the sum of as many
copies of the base point. -/
inductive Verdict (policy : Policy) (o p : Bytes) : Except KeyError KeyPair → Prop where
  | wrongLength : ¬ KeyLength p →
      Verdict policy o p (.error (.malformedRecord (.publicLength p.length)))
  | wrongTag {tag : UInt8} {rest : Bytes} : KeyLength p → p = tag :: rest → ¬ KeyTag p →
      Verdict policy o p (.error (.unsupportedEncoding .record tag))
  | refused {cause : InvalidKey} : KeyLength p → KeyTag p →
      policy.refusal? (BigEndian.value o % order) = some cause →
      Verdict policy o p (.error (.invalidKey cause))
  | mismatch {k : PublicKey} : KeyLength p → KeyTag p →
      policy.refusal? (BigEndian.value o % order) = none → k.IsSum (BigEndian.value o % order) →
      k.compressed = decide (p.length = PublicKey.compressedSize) → p ≠ k.encode →
      Verdict policy o p (.error .keyMismatch)
  | pair {k : KeyPair} : KeyLength p → KeyTag p →
      policy.refusal? (BigEndian.value o % order) = none →
      k.privateKey.scalar.value = BigEndian.value o % order → k.Matched →
      k.isCompressed = decide (p.length = PublicKey.compressedSize) → p = k.publicKey.encode →
      Verdict policy o p (.ok k)

variable {policy : Policy} {parts : Parts} {r : Bytes} {k : KeyPair}

theorem supportedTag?_eq_none_iff {tag : UInt8} {rest : Bytes} :
    supportedTag? (tag :: rest) = none ↔ KeyTag (tag :: rest) := by
  refine ⟨fun h => ⟨tag, rest, rfl, ?_⟩, ?_⟩
  · rw [supportedTag?] at h
    split_ifs at h with ht
    exact ht
  · rintro ⟨tag, rest, e, ht⟩
    cases e
    exact if_pos ht

theorem keyTag_of_supportedTag? {p : Bytes} (hl : KeyLength p) (h : supportedTag? p = none) :
    KeyTag p := by
  rcases p with _ | ⟨tag, rest⟩
  · rcases hl with hl | hl <;> exact absurd hl (by decide)
  · exact supportedTag?_eq_none_iff.mp h

theorem exists_of_supportedTag? {p : Bytes} {tag : UInt8} (h : supportedTag? p = some tag) :
    ∃ rest, p = tag :: rest ∧ ¬ KeyTag p := by
  rcases p with _ | ⟨first, rest⟩
  · cases h
  · have hk : ¬ KeyTag (first :: rest) := by
      rw [← supportedTag?_eq_none_iff, h]
      exact nofun
    rw [supportedTag?] at h
    split_ifs at h
    cases h
    exact ⟨rest, rfl, hk⟩

theorem KeyTag.encode (k : PublicKey) : KeyTag k.encode :=
  supportedTag?_eq_none_iff.mp k.supportedTag?_encode

/-- Once the number is not refused, the derived key is all that is left to compare. -/
theorem Parts.toPair_eq (parts : Parts) (policy : Policy)
    (ho : parts.privateOctets.length ≤ PrivateKey.size)
    (ht : supportedTag? parts.publicOctets = none)
    (hr : policy.refusal? (BigEndian.value parts.privateOctets % order) = none) :
    ∃ k : KeyPair, k.Matched ∧
      k.privateKey.scalar.value = BigEndian.value parts.privateOctets % order ∧
      k.isCompressed = decide (parts.publicOctets.length = PublicKey.compressedSize) ∧
      parts.toPair policy =
        if k.publicKey.encode = parts.publicOctets then pure k
        else .fail .keyMismatch (mismatchNote parts.publicOctets k.publicKey) := by
  obtain ⟨k, hk, hm, hv, hc⟩ := KeyPair.ofBytes_accepted
    (decide (parts.publicOctets.length = PublicKey.compressedSize)) (byteLength_ofBytes_le ho) hr
  refine ⟨k, hm, hv, hc, ?_⟩
  rw [Parts.toPair, ht, hk]
  rfl

theorem Parts.toPair_refused {parts : Parts} {policy : Policy} {cause : InvalidKey}
    (ho : parts.privateOctets.length ≤ PrivateKey.size)
    (ht : supportedTag? parts.publicOctets = none)
    (hr : policy.refusal? (BigEndian.value parts.privateOctets % order) = some cause) :
    parts.toPair policy = cause.refusePrivate := by
  rw [Parts.toPair, ht, KeyPair.ofBytes_refused (byteLength_ofBytes_le ho) hr]
  rfl

/-- **There is one verdict** on given octets: the faults exclude one another, and a number and a
form determine the key. -/
theorem Verdict.unique {o p : Bytes} {a b : Except KeyError KeyPair} (ha : Verdict policy o p a)
    (hb : Verdict policy o p b) : a = b := by
  cases ha with
  | wrongLength hl =>
      cases hb with
      | wrongLength => rfl
      | wrongTag hl' | refused hl' | mismatch hl' | pair hl' => exact absurd hl' hl
  | wrongTag hl e hk =>
      cases hb with
      | wrongLength hl' => exact absurd hl hl'
      | wrongTag _ e' _ =>
          rw [e] at e'
          cases e'
          rfl
      | refused _ hk' | mismatch _ hk' | pair _ hk' => exact absurd hk' hk
  | refused hl hk hr =>
      cases hb with
      | wrongLength hl' => exact absurd hl hl'
      | wrongTag _ _ hk' => exact absurd hk hk'
      | refused _ _ hr' =>
          rw [hr] at hr'
          cases hr'
          rfl
      | mismatch _ _ hr' | pair _ _ hr' =>
          rw [hr] at hr'
          cases hr'
  | mismatch hl hk hr hm hc hne =>
      cases hb with
      | wrongLength hl' => exact absurd hl hl'
      | wrongTag _ _ hk' => exact absurd hk hk'
      | refused _ _ hr' =>
          rw [hr] at hr'
          cases hr'
      | mismatch => rfl
      | @pair l _ _ _ hv hm' hc' e =>
          have hl' : l.publicKey.IsSum (BigEndian.value o % order) := hv ▸ hm'
          exact absurd (hl'.ext hm (hc'.trans hc.symm) ▸ e) hne
  | @pair k hl hk hr hv hm hc e =>
      cases hb with
      | wrongLength hl' => exact absurd hl hl'
      | wrongTag _ _ hk' => exact absurd hk hk'
      | refused _ _ hr' =>
          rw [hr] at hr'
          cases hr'
      | mismatch _ _ _ hm' hc' hne =>
          have hk' : k.publicKey.IsSum (BigEndian.value o % order) := hv ▸ hm
          exact absurd (hk'.ext hm' (hc.trans hc'.symm) ▸ e) hne
      | pair _ _ _ hv' hm' hc' _ =>
          rw [hm.ext hm' (hv.trans hv'.symm) (hc.trans hc'.symm)]

/-- **Well-formed parts** get the verdict on their octets. -/
theorem Parts.toPair_verdict (parts : Parts) (policy : Policy)
    (ho : parts.privateOctets.length ≤ PrivateKey.size) (hl : KeyLength parts.publicOctets) :
    Verdict policy parts.privateOctets parts.publicOctets (parts.toPair policy).result := by
  -- The tag is looked at before the number, and the number before the key is derived.
  rcases ht : supportedTag? parts.publicOctets with _ | tag
  · have hk := keyTag_of_supportedTag? hl ht
    rcases hr : policy.refusal? (BigEndian.value parts.privateOctets % order) with _ | cause
    · obtain ⟨k, hm, hv, hc, e⟩ := Parts.toPair_eq parts policy ho ht hr
      rw [e]
      split_ifs with h
      · exact .pair hl hk hr hv hm hc h.symm
      · exact .mismatch hl hk hr (hv ▸ hm) hc (Ne.symm h)
    · rw [Parts.toPair_refused ho ht hr]
      exact .refused hl hk hr
  · obtain ⟨rest, hp, hk⟩ := exists_of_supportedTag? ht
    rw [Parts.toPair, ht]
    exact .wrongTag hl hp hk

end Record

open Record

namespace KeyPair

variable {policy : Policy} {parts : Parts} {r : Bytes} {k : KeyPair}

theorem ofRecord_eq (h : parse r = .ok parts) : ofRecord r policy = parts.toPair policy := by
  rw [ofRecord, h]

/-- **A record that is accepted** is framed, and worth the pair. -/
theorem exists_of_ofRecord (h : (ofRecord r policy).result = .ok k) :
    ∃ parts, parse r = .ok parts ∧
      Verdict policy parts.privateOctets parts.publicOctets (.ok k) := by
  rw [ofRecord] at h
  rcases hp : parse r with cause | parts
  · rw [hp] at h
    cases h
  · rw [hp] at h
    refine ⟨parts, rfl, ?_⟩
    rw [← h]
    have hs := (parse_eq_ok_iff.mp hp).2
    exact Parts.toPair_verdict parts policy hs.privateOctets.2 hs.publicOctets

/-- The private key of a record is never too wide for the arithmetic. -/
theorem ofRecord_ne_failed (failure : QueuedFailure) :
    (ofRecord r policy).result ≠ .error (.failed failure) := by
  rw [ofRecord]
  rcases hp : parse r with cause | parts
  · exact fun h => by cases h
  · intro h
    have hs := (parse_eq_ok_iff.mp hp).2
    have hv := Parts.toPair_verdict parts policy hs.privateOctets.2 hs.publicOctets
    rw [h] at hv
    cases hv

theorem sized_toRecord (k : KeyPair) :
    Parts.Sized ⟨k.privateKey.toBytes, encodedParameters, k.publicKey.encode⟩ := by
  refine ⟨by simp [PrivateKey.size], ?_⟩
  rw [KeyLength, PublicKey.length_encode]
  split_ifs
  · exact .inl rfl
  · exact .inr rfl

theorem length_encodedParameters : encodedParameters.length = 227 := by decide +kernel

theorem framed_toRecord (k : KeyPair) :
    Framed .basic k.toRecord
      ⟨k.privateKey.toBytes, encodedParameters, k.publicKey.encode⟩ := by
  refine framed_encode (lt_of_le_of_lt (length_encodedElements_le k.sized_toRecord ?_) ?_)
  · simp only [length_encodedParameters]
    decide
  · simp only [length_encodedParameters]
    decide

/-- A public key is far shorter than what can be written as a bit string. -/
theorem length_bitString_encode_le (k : PublicKey) : (Der.bitString k.encode).length ≤ 76 := by
  have hk : k.encode.length ≤ 65 := by
    rw [PublicKey.length_encode]
    split_ifs <;> decide
  have hlt : (0 :: k.encode).length < 256 ^ 8 :=
    lt_of_le_of_lt (Nat.succ_le_succ hk) (by decide)
  exact (length_write_le hlt).trans (Nat.add_le_add_right (Nat.succ_le_succ hk) 10)

theorem writeElements_eq (k : KeyPair) :
    k.writeElements = pure (encodedElements
      ⟨k.privateKey.toBytes, encodedParameters, k.publicKey.encode⟩) := by
  have hparameters : (Der.explicit RecordPart.parameters.tag encodedParameters).length < sizeLimit :=
    lt_of_le_of_lt (length_write_le (by rw [length_encodedParameters]; decide))
      (by rw [length_encodedParameters]; decide)
  have hbits := length_bitString_encode_le k.publicKey
  have hpublic : (Der.explicit RecordPart.publicKey.tag
      (Der.bitString k.publicKey.encode)).length < sizeLimit :=
    lt_of_le_of_lt (length_write_le (lt_of_le_of_lt hbits (by decide)))
      (lt_of_le_of_lt (Nat.add_le_add_right hbits 10) (by decide))
  rw [writeElements, wrapExplicit_eq hparameters, Traced.pure_bind,
    encodeBitString_eq (lt_of_le_of_lt hbits (by decide)), Traced.pure_bind,
    wrapExplicit_eq hpublic, Traced.pure_bind]
  rfl

/-- **What is written** of a pair is its record, with one note. -/
theorem writeRecord_eq (k : KeyPair) :
    k.writeRecord = ⟨.ok k.toRecord, [encodedNote k.toRecord.length k.isCompressed]⟩ := by
  rw [writeRecord, writeElements_eq, Traced.mapError_pure, Traced.pure_bind]
  rfl

/-- The record of a matched pair gives the pair back under a policy that does not refuse it. -/
theorem Matched.ofRecord_toRecord (hm : k.Matched)
    (hr : policy.refusal? k.privateKey.scalar.value = none) :
    ofRecord k.toRecord policy = pure k := by
  have hv := k.privateKey.value_toBytes_mod
  rw [ofRecord_eq (parse_eq_ok_iff.mpr ⟨k.framed_toRecord, k.sized_toRecord⟩)]
  obtain ⟨l, hl, hlv, hlc, e⟩ := Parts.toPair_eq
    ⟨k.privateKey.toBytes, encodedParameters, k.publicKey.encode⟩ policy
    k.privateKey.length_toBytes.le k.publicKey.supportedTag?_encode (by rw [hv]; exact hr)
  rw [hv] at hlv
  rw [← PublicKey.compressed_eq] at hlc
  obtain rfl : l = k := hl.ext hm hlv hlc
  rw [e]
  exact if_pos rfl

/-! ### A record in two framings -/

/-- The parts of a small record of the scalar 1. -/
def onesParts : Parts := ⟨[1], [], compressedGenerator⟩

/-- The same record with an outer length that takes one octet more than it needs. -/
def overlongRecord : Bytes := 0x30 :: 0x81 :: 0x2e :: (encodedElements onesParts).flatten

theorem sized_onesParts : onesParts.Sized := ⟨by decide, .inl rfl⟩

theorem length_elements_onesParts : (encodedElements onesParts).flatten.length = 46 := rfl

theorem framed_overlongRecord : Framed .basic overlongRecord onesParts := by
  have hl := length_elements_onesParts
  refine framed_of_sequence (by rw [hl]; decide) ?_
  rw [overlongRecord]
  -- Only the length of the elements matters from here on.
  generalize (encodedElements onesParts).flatten = body at hl ⊢
  have hlength : LengthOctets .basic [0x81, 0x2e] (some body.length) := by
    rw [hl]
    exact @LengthOctets.long .basic 0x81 [0x2e] (by decide) rfl (by decide) nofun
  have ha : Announces .basic [0x30, 0x81, 0x2e] (der 0x30 body.length) body := by
    refine announces_of_short (by decide) hlength (fun _ hb => ?_) (decide_eq_true le_rfl)
    rw [hb] at hl
    cases hl
  exact .definite ha nofun

/-- A record is accepted if its parts are worth a pair. -/
theorem exists_of_framed (hf : Framed .basic r parts) (hs : parts.Sized)
    (h : (parts.toPair policy).result.toOption.isSome = true) :
    ∃ k, (ofRecord r policy).result = .ok k := by
  rw [ofRecord_eq (parse_eq_ok_iff.mpr ⟨hf, hs⟩)]
  cases e : (parts.toPair policy).result with
  | ok k => exact ⟨k, rfl⟩
  | error e' =>
      rw [e] at h
      cases h

/-- The record is accepted however it is framed. -/
theorem ofRecord_of_onesParts (h : Framed .basic r onesParts) :
    ∃ k, (ofRecord r .lenient).result = .ok k :=
  exists_of_framed h sized_onesParts (by decide +kernel)

theorem ofRecord_overlongRecord : ∃ k, (ofRecord overlongRecord .lenient).result = .ok k :=
  ofRecord_of_onesParts framed_overlongRecord

/-- No record that is written has such a length. -/
theorem overlongRecord_ne_encode (parts : Parts) : overlongRecord ≠ encode parts := by
  intro e
  have hl : overlongRecord.length = 49 := congrArg (· + 3) length_elements_onesParts
  have hlt := length_encodedElements_lt_encode parts
  rw [← e, hl] at hlt
  rw [overlongRecord, encode_eq, Der.sequence, Der.write, Der.lengthOctets] at e
  generalize (encodedElements parts).flatten = body at hlt e
  -- A length below 128 is written in one octet, which is not `81`.
  rw [if_pos (by omega)] at e
  have hv : 129 = (UInt8.ofNat body.length).toNat :=
    congrArg UInt8.toNat (List.cons.inj (List.cons.inj e).2).1
  rw [UInt8.toNat_ofNat'] at hv
  omega

/-! ### What records are worth -/

theorem ofRecord_encode_verdict {o c p : Bytes} (policy : Policy) (ho : 1 ≤ o.length)
    (hs : o.length ≤ PrivateKey.size) (hl : (encode ⟨o, c, p⟩).length < 2 ^ 63) :
    Verdict policy o p (ofRecord (encode ⟨o, c, p⟩) policy).result := by
  rw [ofRecord, parse_encode ho hs hl]
  by_cases hp : p.length ≠ PublicKey.compressedSize ∧ p.length ≠ PublicKey.uncompressedSize
  · rw [if_pos hp]
    exact .wrongLength (not_or.mpr hp)
  · rw [if_neg hp]
    rw [← not_or, not_not] at hp
    exact Parts.toPair_verdict ⟨o, c, p⟩ policy hs hp

/-- **The records that are written** for private octets of the sizes that can be read: their outcome
is the verdict on their private and public octets, whatever the parameters are. -/
theorem ofRecord_encode {o c p : Bytes} (policy : Policy) (ho : 1 ≤ o.length)
    (hs : o.length ≤ PrivateKey.size) (hl : (encode ⟨o, c, p⟩).length < 2 ^ 31) :
    (∀ outcome,
      (ofRecord (encode ⟨o, c, p⟩) policy).result = outcome ↔ Verdict policy o p outcome) ∧
      ∀ c', (encode ⟨o, c', p⟩).length < 2 ^ 31 →
        ofRecord (encode ⟨o, c', p⟩) policy = ofRecord (encode ⟨o, c, p⟩) policy := by
  refine ⟨fun outcome => ?_, fun c' hl' => ?_⟩
  · have hv := ofRecord_encode_verdict policy ho hs (lt_trans hl (by decide))
    exact ⟨fun e => e ▸ hv, fun h => hv.unique h⟩
  · -- Neither what is parsed nor what the parts are worth looks at the parameters.
    rw [ofRecord, ofRecord, parse_encode ho hs (lt_trans hl (by decide)),
      parse_encode ho hs (lt_trans hl' (by decide))]
    split_ifs
    · rfl
    · rfl

theorem ofRecord_encode_onesParts :
    (ofRecord (encode onesParts) .strict).result = .error (.invalidKey .scalarOne) := by
  have hl : (encode onesParts).length < 2 ^ 31 := by decide
  refine ((ofRecord_encode .strict (by decide) (by decide) hl).1 _).mpr ?_
  exact .refused sized_onesParts.publicOctets ⟨_, _, rfl, .inl rfl⟩ (by decide)

/-- **A pair that is read** from any octets, of a number that 32 bits with a sign can hold: its
encoded public key and its number are those of the octets, and it is read again from its own record,
which is the same record if that one was written from a full private key below the order and the
parameters of the curve.  Of a bit string in segments the octets that count their unused bits are
taken for octets of the key, all but the first, so that the key is what the bit string stands for
only if there is one segment. -/
theorem ofRecord_sound (_ : r.length < 2 ^ 31) (h : (ofRecord r policy).result = .ok k) :
    ∃ parts, Framed .basic r parts ∧ (∀ parts', Framed .basic r parts' → parts' = parts) ∧
      parts.publicOctets = k.publicKey.encode ∧
      (∀ o c first rest, Segmented r o c (first :: rest) →
        k.publicKey.encode = first ++ (rest.map segmentValue).flatten ∧
          (k.publicKey.encode = first ++ rest.flatten ↔ rest = [])) ∧
      (k.isCompressed = true ↔ parts.publicOctets.length = PublicKey.compressedSize) ∧
      1 ≤ k.privateKey.scalar.value ∧ k.privateKey.scalar.value < order ∧
      k.privateKey.scalar.value ≡ BigEndian.value parts.privateOctets [MOD order] ∧
      (ofRecord k.toRecord policy).result = .ok k ∧
      (r = encode parts → parts.privateOctets.length = PrivateKey.size →
        BigEndian.value parts.privateOctets < order → parts.parameters = encodedParameters →
        k.toRecord = r) := by
  obtain ⟨parts, hp, hv⟩ := exists_of_ofRecord h
  have hf := (parse_eq_ok_iff.mp hp).1
  refine ⟨parts, hf, fun parts' h' => h'.unique hp, ?_⟩
  cases hv with
  | pair hl hk hr hd hm hc e =>
      refine ⟨e, fun o c first rest hs => ?_, ?_, Nat.pos_of_ne_zero k.privateKey.value_ne_zero,
        k.privateKey.value_lt_order, ?_, ?_, ?_⟩
      · obtain rfl := hs.framed.unique hp
        rw [← e]
        exact ⟨rfl, append_flatten_inj_iff⟩
      · rw [hc]
        exact decide_eq_true_iff
      · rw [hd]
        exact Nat.mod_modEq _ _
      · rw [hm.ofRecord_toRecord (hd ▸ hr)]
        rfl
      · -- The 32 octets of a number below the order are those its private key is written in.
        intro hr ho hlt hpar
        rw [Nat.mod_eq_of_lt hlt] at hd
        have ht : k.privateKey.toBytes = parts.privateOctets :=
          BigEndian.value_inj_of_length (k.privateKey.length_toBytes.trans ho.symm)
            (k.privateKey.value_toBytes.trans hd)
        rw [hr, toRecord, ht, ← e, ← hpar]

theorem ofRecord_sound_overlongRecord :
    overlongRecord.length < 2 ^ 31 ∧ ∃ k, (ofRecord overlongRecord .lenient).result = .ok k ∧
      k.publicKey.encode = compressedGenerator ∧ (ofRecord k.toRecord .lenient).result = .ok k := by
  obtain ⟨k, hk⟩ := ofRecord_overlongRecord
  have hl : overlongRecord.length < 2 ^ 31 := by decide
  obtain ⟨parts, -, hu, hp, -, -, -, -, -, ha, -⟩ := ofRecord_sound hl hk
  rw [← hu _ framed_overlongRecord] at hp
  exact ⟨hl, k, hk, hp.symm, ha⟩

/-- The compressed public key of 30 without its last octet, which is zero. -/
def shortKey : Bytes :=
  [0x03, 0x6d, 0x2b, 0x08, 0x5e, 0x9e, 0x38, 0x2e, 0xd1, 0x0b, 0x69, 0xfc, 0x31, 0x1a, 0x03, 0xf8,
   0x64, 0x1c, 0xcf, 0xff, 0x21, 0x57, 0x4d, 0xe0, 0x92, 0x75, 0x13, 0xa4, 0x9d, 0x9a, 0x68, 0x8a]

/-- A record of the number 30 with a bit string in two segments, the second one of no octets. -/
def segmentedRecord : Bytes :=
  Der.sequence
    [Der.primitive .integer [1], Der.primitive .octetString [30],
     Der.explicit RecordPart.parameters.tag [],
     Der.explicit RecordPart.publicKey.tag (inSegments [shortKey, []])]

theorem segmented_segmentedRecord : Segmented segmentedRecord [30] [] [shortKey, []] := by
  have hbits : BitString (inSegments [shortKey, []]) [shortKey, []] :=
    bitString_inSegments (by decide) (by decide)
  refine .mk (carries_der .integer (by decide)) (carries_der .octetString (by decide))
    (explicit_der (by decide) (by decide)) (explicit_der (by decide) (by decide)) hbits ?_
  have hr : Sequence .basic segmentedRecord _ := sequence_der (by decide)
  simpa only [List.flatten_cons, List.flatten_nil, List.append_nil] using hr

/-- **A key that no bit string stands for.**  The record is accepted, but the key that is derived is
none that its bit string stands for. -/
theorem ofRecord_segmentedRecord :
    ∃ k, (ofRecord segmentedRecord .lenient).result = .ok k ∧
      Segmented segmentedRecord [30] [] [shortKey, []] ∧
      k.publicKey.encode ≠ [shortKey, []].flatten := by
  have hf := segmented_segmentedRecord.framed
  have hs : Parts.Sized ⟨[30], [], shortKey ++ ([[]].map segmentValue).flatten⟩ :=
    ⟨by decide, .inl rfl⟩
  obtain ⟨k, hk⟩ : ∃ k, (ofRecord segmentedRecord .lenient).result = .ok k :=
    exists_of_framed hf hs (by decide +kernel)
  obtain ⟨parts, hp, hv⟩ := exists_of_ofRecord hk
  obtain rfl := hf.unique hp
  refine ⟨k, hk, segmented_segmentedRecord, fun e => ?_⟩
  cases hv with
  | pair _ _ _ _ _ _ he => exact absurd (congrArg List.length (he.trans e)) (by decide)

/-- What is refused as malformed is what does not frame parts of the sizes of keys. -/
theorem ofRecord_malformed_iff :
    (∃ cause, (ofRecord r policy).result = .error (.malformedRecord cause)) ↔
      ¬ ∃ parts, Framed .basic r parts ∧ parts.Sized := by
  simp only [← parse_eq_ok_iff]
  rw [ofRecord]
  rcases hp : parse r with cause | parts
  · exact iff_of_true ⟨cause, rfl⟩ nofun
  · refine iff_of_false ?_ (not_not_intro ⟨parts, rfl⟩)
    rintro ⟨cause, h⟩
    have hs := (parse_eq_ok_iff.mp hp).2
    have hl := hs.publicOctets
    have hv := Parts.toPair_verdict parts policy hs.privateOctets.2 hl
    rw [h] at hv
    cases hv with
    | wrongLength hl' => exact hl' hl

/-- **How a record can be framed.**  What is not malformed is framed in any way that keeps to the
basic rules, and all ways of framing the same parts are worth the same.  Of a pair that is read, the
octets are the record written from their own parts exactly when they keep to the distinguished
rules. -/
theorem ofRecord_framing (r : Bytes) (policy : Policy) :
    ((∃ cause, (ofRecord r policy).result = .error (.malformedRecord cause)) ↔
      ¬ ∃ parts, Framed .basic r parts ∧ parts.Sized) ∧
    ∀ k, (ofRecord r policy).result = .ok k →
      ∃ parts, Framed .basic r parts ∧ (∀ parts', Framed .basic r parts' → parts' = parts) ∧
        (r = encode parts ↔ Framed .distinguished r parts) ∧
        ∀ r', Framed .basic r' parts → (ofRecord r' policy).result = .ok k := by
  refine ⟨ofRecord_malformed_iff, fun k h => ?_⟩
  obtain ⟨parts, hp, -⟩ := exists_of_ofRecord h
  obtain ⟨hf, hs⟩ := parse_eq_ok_iff.mp hp
  refine ⟨parts, hf, fun parts' h' => h'.unique hp, (framed_distinguished_iff hs hf).symm, ?_⟩
  intro r' h'
  rwa [ofRecord_eq (parse_eq_ok_iff.mpr ⟨h', hs⟩), ← ofRecord_eq hp]

theorem ofRecord_framing_overlongRecord :
    ∃ k, (ofRecord overlongRecord .lenient).result = .ok k ∧
      Framed .basic overlongRecord onesParts ∧ ¬ Framed .distinguished overlongRecord onesParts ∧
      (ofRecord (encode onesParts) .lenient).result = .ok k := by
  obtain ⟨k, hk⟩ := ofRecord_overlongRecord
  obtain ⟨parts, hf, hu, hd, ha⟩ := (ofRecord_framing overlongRecord .lenient).2 k hk
  obtain rfl := hu _ framed_overlongRecord
  refine ⟨k, hk, hf, mt hd.mpr (overlongRecord_ne_encode _), ha _ (framed_encode ?_)⟩
  rw [length_elements_onesParts]
  decide

end KeyPair

end CurveKeys
