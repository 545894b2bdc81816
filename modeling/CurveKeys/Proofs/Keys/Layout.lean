import CurveKeys.Proofs.Keys.Exchanged

/-!
# Keys — the layout of records

The record of a pair has a fixed layout.  All lengths in it are those of values of a fixed size, so
the octets around the two keys depend on the form of the public key only, and records of one form
are told apart by their keys alone.

* `Record.contents`: what stands behind the length of a record, octet by octet.
* `Record.encode_eq_contents`: that length takes two octets.
* `Record.encode_eq_around`: the octets in front of the two keys and between them.
* `getElem?_append_ne`, `getElem?_append_left_ne`: where two concatenations can differ.
* `KeyPair.toRecord_layout`: the layout, how long records are, and where two of them can differ.
-/

namespace CurveKeys

open Curve Asn1

namespace Record

variable {o p : Bytes}

/-! ### The elements -/

theorem explicit_encodedParameters :
    Der.explicit RecordPart.parameters.tag encodedParameters =
      [0xa0, 0x81, 0xe3] ++ encodedParameters := by
  rw [Der.explicit, Der.write, KeyPair.length_encodedParameters]
  rfl

theorem bitString_eq (hp : KeyLength p) :
    Der.bitString p = 0x03 :: UInt8.ofNat (p.length + 1) :: 0x00 :: p := by
  have hle := hp.le
  rw [Der.bitString, Der.primitive, write_of_lt (by rw [List.length_cons]; omega),
    List.length_cons]
  rfl

theorem explicit_bitString (hp : KeyLength p) :
    Der.explicit RecordPart.publicKey.tag (Der.bitString p) =
      [0xa1, UInt8.ofNat (p.length + 3), 0x03, UInt8.ofNat (p.length + 1), 0x00] ++ p := by
  have hle := hp.le
  have hl : (Der.bitString p).length = p.length + 3 := by
    rw [bitString_eq hp, List.length_cons, List.length_cons, List.length_cons]
  rw [Der.explicit, write_of_lt (by omega), hl, bitString_eq hp]
  rfl

/-- The octets between the two keys, when the public one takes `n` octets. -/
def between (n : Nat) : Bytes :=
  [0xa0, 0x81, 0xe3] ++ encodedParameters ++
    [0xa1, UInt8.ofNat (n + 3), 0x03, UInt8.ofNat (n + 1), 0x00]

theorem publicElements_eq (hp : KeyLength p) :
    publicElements encodedParameters p = between p.length ++ p := by
  rw [publicElements, explicit_encodedParameters, explicit_bitString hp, between,
    List.append_assoc, List.append_assoc, List.append_assoc]

/-! ### The whole record -/

/-- The octets behind the length of a record: the version, the private key as 32 octets, the
parameters under the tag [0], and under the tag [1] a bit string without unused bits. -/
def contents (o p : Bytes) : Bytes :=
  [0x02, 0x01, 0x01] ++ ([0x04, 0x20] ++ o) ++ ([0xa0, 0x81, 0xe3] ++ encodedParameters) ++
    ([0xa1, UInt8.ofNat (p.length + 3), 0x03, UInt8.ofNat (p.length + 1), 0x00] ++ p)

/-- **A record around its keys**: what stands in front of them and between them is told by the
length of the public key. -/
theorem encode_eq_around (hp : KeyLength p) (ho : o.length = PrivateKey.size) :
    encode ⟨o, encodedParameters, p⟩ =
      front (p.length + 235) ++ (o ++ (between p.length ++ p)) := by
  rw [encode_eq_append ho, length_publicElements hp, publicElements_eq hp]

/-- The length in front is written in two octets behind their number. -/
theorem front_eq (hp : KeyLength p) :
    front (p.length + 235) =
      [0x30, 0x82] ++ (BigEndian.encode 2 (p.length + 272) ++ [0x02, 0x01, 0x01, 0x04, 0x20]) := by
  rcases hp with h | h
  · rw [h]
    rfl
  · rw [h]
    rfl

theorem length_contents (ho : o.length = PrivateKey.size) :
    (contents o p).length = p.length + 272 := by
  simp only [contents, List.length_append, List.length_cons, List.length_nil, ho,
    KeyPair.length_encodedParameters, PrivateKey.size]
  omega

/-- **A record behind its length**, which takes two octets. -/
theorem encode_eq_contents (hp : KeyLength p) (ho : o.length = PrivateKey.size) :
    encode ⟨o, encodedParameters, p⟩ =
      [0x30, 0x82] ++ BigEndian.encode 2 (contents o p).length ++ contents o p := by
  rw [encode_eq_around hp ho, front_eq hp, length_contents ho, contents, between]
  simp only [List.append_assoc, List.cons_append, List.nil_append]

end Record

/-! ### Where two strings differ -/

section Differ

variable {a b s t : Bytes} {i : Nat}

/-- Strings with beginnings of one length differ in these or behind them. -/
theorem getElem?_append_ne (hl : a.length = b.length) (h : (a ++ s)[i]? ≠ (b ++ t)[i]?) :
    i < a.length ∨ a.length ≤ i ∧ s[i - a.length]? ≠ t[i - a.length]? := by
  rcases Nat.lt_or_ge i a.length with hi | hi
  · exact .inl hi
  · rw [List.getElem?_append_right hi, List.getElem?_append_right (hl ▸ hi), ← hl] at h
    exact .inr ⟨hi, h⟩

/-- Strings with a common beginning differ behind it. -/
theorem getElem?_append_left_ne (h : (a ++ s)[i]? ≠ (a ++ t)[i]?) :
    a.length ≤ i ∧ s[i - a.length]? ≠ t[i - a.length]? := by
  rcases getElem?_append_ne rfl h with hi | h'
  · exact absurd (by rw [List.getElem?_append_left hi, List.getElem?_append_left hi]) h
  · exact h'

theorem lt_length_of_getElem?_ne (hl : s.length = t.length) (h : s[i]? ≠ t[i]?) :
    i < s.length := by
  by_contra hi
  rw [Nat.not_lt] at hi
  exact h (by rw [List.getElem?_eq_none hi, List.getElem?_eq_none (hl ▸ hi)])

end Differ

namespace KeyPair

open Record

variable {k l : KeyPair}

theorem length_encode_congr (h : k.isCompressed = l.isCompressed) :
    k.publicKey.encode.length = l.publicKey.encode.length := by
  rw [PublicKey.length_encode, PublicKey.length_encode, ← isCompressed, h, isCompressed]

/-- **Records of one form** differ inside their two keys only. -/
theorem place_of_getElem?_ne {i : Nat} (h : k.isCompressed = l.isCompressed)
    (hi : k.toRecord[i]? ≠ l.toRecord[i]?) :
    privateOffset ≤ i ∧ i < privateOffset + PrivateKey.size ∨
      k.toRecord.length - k.publicKey.encode.length ≤ i ∧ i < k.toRecord.length := by
  have hp : KeyLength k.publicKey.encode := k.sized_toRecord.publicOctets
  have hk := length_encode hp k.privateKey.length_toBytes
  have hsize : i < k.toRecord.length :=
    lt_length_of_getElem?_ne (by rw [length_toRecord, length_toRecord, h]) hi
  have hfront : (front (k.publicKey.encode.length + 235)).length = privateOffset :=
    length_publicElements hp ▸ length_front hp
  have hbetween : (between k.publicKey.encode.length).length = 235 := by
    rw [between, List.length_append, List.length_append, length_encodedParameters]
    rfl
  have ho : k.privateKey.toBytes.length = l.privateKey.toBytes.length := by
    rw [PrivateKey.length_toBytes, PrivateKey.length_toBytes]
  rw [toRecord, toRecord, encode_eq_around hp k.privateKey.length_toBytes,
    encode_eq_around l.sized_toRecord.publicOctets l.privateKey.length_toBytes,
    ← length_encode_congr h] at hi
  -- Behind the front comes the private key, and behind what is between the keys the public one.
  obtain ⟨h₁, hi⟩ := getElem?_append_left_ne hi
  rw [hfront] at h₁ hi
  rcases getElem?_append_ne ho hi with h₂ | ⟨h₂, hi⟩
  · rw [PrivateKey.length_toBytes] at h₂
    exact .inl ⟨h₁, by rw [PrivateKey.size]; omega⟩
  · obtain ⟨h₃, -⟩ := getElem?_append_left_ne hi
    rw [PrivateKey.length_toBytes] at h₂ h₃
    rw [hbetween] at h₃
    refine .inr ⟨?_, hsize⟩
    rw [toRecord, hk]
    rw [privateOffset] at h₁ h₂ h₃
    omega

/-- **The layout of a record.**  A sequence, whose length stands in two octets, of the version, the
private key as 32 octets, the parameters of the curve and the public key (`Record.contents`).
Records of one form have one length, uncompressed ones are 32 octets longer, and two records of one
form differ inside the 32 octets of the private key and the public key at the end only. -/
theorem toRecord_layout :
    (∀ k : KeyPair, ∃ size,
      k.toRecord = [0x30, 0x82] ++ size ++
        contents (BigEndian.encode 32 k.privateKey.scalar.value) k.publicKey.encode ∧
      size.length = 2 ∧ BigEndian.value size =
        (contents (BigEndian.encode 32 k.privateKey.scalar.value) k.publicKey.encode).length) ∧
    encodedParameters.length = 0xe3 ∧
    (∀ k : KeyPair, k.publicKey.encode.length = if k.isCompressed = true then 33 else 65) ∧
    (∀ k l : KeyPair, k.isCompressed = true → l.isCompressed = false →
      l.toRecord.length = k.toRecord.length + 32) ∧
    ∀ k l : KeyPair, k.isCompressed = l.isCompressed →
      k.toRecord.length = l.toRecord.length ∧
      ∀ i, k.toRecord[i]? ≠ l.toRecord[i]? → 9 ≤ i ∧ i < 41 ∨
        k.toRecord.length - k.publicKey.encode.length ≤ i ∧ i < k.toRecord.length := by
  refine ⟨fun k => ?_, length_encodedParameters, fun k => k.publicKey.length_encode,
    fun k l hk hl => ?_, fun k l h => ⟨?_, fun i => place_of_getElem?_ne h⟩⟩
  · have hp : KeyLength k.publicKey.encode := k.sized_toRecord.publicOctets
    have hle := hp.le
    have ho : (BigEndian.encode 32 k.privateKey.scalar.value).length = PrivateKey.size :=
      BigEndian.length_encode _ _
    have htoBytes : k.privateKey.toBytes = BigEndian.encode 32 k.privateKey.scalar.value :=
      Scalar.encode_eq _ _
    rw [toRecord, htoBytes, encode_eq_contents hp ho]
    refine ⟨_, rfl, BigEndian.length_encode 2 _, ?_⟩
    rw [BigEndian.value_encode, Nat.mod_eq_of_lt]
    rw [length_contents ho]
    omega
  · rw [k.length_toRecord, l.length_toRecord, hk, hl]
    rfl
  · rw [k.length_toRecord, l.length_toRecord, h]

/-- The pairs of 1 and 2 in compressed form, and the pair of 1 in the other one. -/
theorem toRecord_layout_one_two :
    ∃ k l m, (ofScalar (some (.ofNat 1)) true .lenient).result = .ok k ∧
      (ofScalar (some (.ofNat 2)) true .lenient).result = .ok l ∧
      (ofScalar (some (.ofNat 1)) false .lenient).result = .ok m ∧
      (∃ size, k.toRecord = [0x30, 0x82] ++ size ++
          contents (List.replicate 31 0 ++ [1]) k.publicKey.encode ∧
        BigEndian.value size = 305) ∧
      m.toRecord.length = k.toRecord.length + 32 ∧
      k.toRecord.length = l.toRecord.length ∧
      ∀ i, k.toRecord[i]? ≠ l.toRecord[i]? → 9 ≤ i ∧ i < 41 ∨ 276 ≤ i ∧ i < 309 := by
  obtain ⟨hlayout, -, hlength, hforms, hform⟩ := toRecord_layout
  obtain ⟨k, hk, -, hkv, hkc⟩ := exists_ofScalar_ofNat (n := 1) (by decide) (by decide) true
  obtain ⟨l, hl, -, -, hlc⟩ := exists_ofScalar_ofNat (n := 2) (by decide) (by decide) true
  obtain ⟨m, hm, -, -, hmc⟩ := exists_ofScalar_ofNat (n := 1) (by decide) (by decide) false
  obtain ⟨size, hsize, -, hv⟩ := hlayout k
  obtain ⟨hkl, hdiffer⟩ := hform k l (hkc.trans hlc.symm)
  have hp : k.publicKey.encode.length = 33 := by rw [hlength, hkc, if_pos rfl]
  rw [hkv] at hsize hv
  refine ⟨k, l, m, hk, hl, hm, ⟨size, hsize, ?_⟩, hforms k m hkc hmc, hkl, fun i hi => ?_⟩
  · have ho : (BigEndian.encode 32 1).length = PrivateKey.size := rfl
    rw [hv, length_contents ho, hp]
  · have h := hdiffer i hi
    rwa [length_toRecord, hp, hkc, if_pos rfl] at h

end KeyPair

end CurveKeys
