import CurveKeys.Proofs.Keys.Constructed

/-!
# Keys — a private key exchanged in a record

The private key stands at a fixed place in the record of a pair, and the octets around it do not
depend on it.  With other octets at that place the record is still well formed, but the public key
that is derived is not the one it carries, unless the number is the same up to the order.

* `Record.encode_eq_append`, `Record.length_front`: what stands around the private octets.
* `Record.length_encode`, `KeyPair.length_toRecord`: how long records are.
* `KeyPair.exchange_toRecord`: a record with the private octets exchanged is the record of the other
  parts.
* `KeyPair.exchange_refused`: such a record is refused.
-/

namespace CurveKeys

open Curve Asn1

namespace Record

/-! ### The place of the private key -/

/-- Where the private octets begin, in the record of a pair. -/
def privateOffset : Nat := 9

/-- The octets of a record with other ones at the place of the private key. -/
def exchange (r o : Bytes) : Bytes :=
  r.take privateOffset ++ (o ++ r.drop (privateOffset + PrivateKey.size))

/-- The elements behind the private key. -/
def publicElements (c p : Bytes) : Bytes :=
  Der.explicit RecordPart.parameters.tag c ++
    Der.explicit RecordPart.publicKey.tag (Der.bitString p)

/-- The octets in front of a full private key, with `n` octets behind it. -/
def front (n : Nat) : Bytes :=
  0x30 :: (Der.lengthOctets (n + 37) ++ [0x02, 0x01, 0x01, 0x04, 0x20])

variable {o c p : Bytes}

theorem encode_eq_append (ho : o.length = PrivateKey.size) :
    encode ⟨o, c, p⟩ = front (publicElements c p).length ++ (o ++ publicElements c p) := by
  have hversion : Der.primitive .integer [1] = [0x02, 0x01, 0x01] := rfl
  have hsecret : Der.primitive .octetString o = 0x04 :: 0x20 :: o := by
    rw [Der.primitive, Der.write, ho]
    rfl
  have hbody : (encodedElements ⟨o, c, p⟩).flatten =
      [0x02, 0x01, 0x01, 0x04, 0x20] ++ (o ++ publicElements c p) := by
    rw [flatten_encodedElements, hversion, hsecret]
    rfl
  -- The length in front counts the private octets, but does not depend on what they are.
  have hlength : (encodedElements ⟨o, c, p⟩).flatten.length =
      (publicElements c p).length + 37 := by
    rw [hbody, List.length_append, List.length_append, ho, ← add_assoc, add_comm]
    rfl
  rw [encode_eq, Der.sequence, Der.write, hlength, hbody, ← List.append_assoc, front]
  rfl

theorem length_publicElements (hp : KeyLength p) :
    (publicElements encodedParameters p).length = p.length + 235 := by
  have hle := hp.le
  have h₁ : (Der.explicit RecordPart.parameters.tag encodedParameters).length = 230 := by
    rw [Der.explicit, Der.write, List.length_cons, List.length_append,
      KeyPair.length_encodedParameters]
    rfl
  have hb : (0 :: p).length < 128 := by
    rw [List.length_cons]
    omega
  have h₂ : (Der.bitString p).length = (0 :: p).length + 2 := length_write_of_lt hb
  rw [List.length_cons] at h₂
  have h₃ : (Der.explicit RecordPart.publicKey.tag (Der.bitString p)).length = _ :=
    length_write_of_lt (by omega)
  rw [publicElements, List.length_append, h₁, h₃, h₂]
  omega

/-- The length of the record of a pair takes three octets. -/
theorem length_front (hp : KeyLength p) :
    (front (publicElements encodedParameters p).length).length = privateOffset := by
  rw [length_publicElements hp]
  rcases hp with h | h
  · rw [h]
    rfl
  · rw [h]
    rfl

theorem take_privateOffset (hp : KeyLength p) (ho : o.length = PrivateKey.size) :
    ((encode ⟨o, encodedParameters, p⟩).drop privateOffset).take PrivateKey.size = o := by
  rw [encode_eq_append ho, List.drop_left' (length_front hp), List.take_left' ho]

/-- **Exchanging the private octets** gives the record of the other parts. -/
theorem exchange_encode {o' : Bytes} (hp : KeyLength p) (ho : o.length = PrivateKey.size)
    (ho' : o'.length = PrivateKey.size) :
    exchange (encode ⟨o, encodedParameters, p⟩) o' = encode ⟨o', encodedParameters, p⟩ := by
  rw [exchange, ← List.drop_drop, encode_eq_append ho, encode_eq_append ho',
    List.take_left' (length_front hp), List.drop_left' (length_front hp), List.drop_left' ho]

/-- The length of a record does not depend on the private key. -/
theorem length_encode (hp : KeyLength p) (ho : o.length = PrivateKey.size) :
    (encode ⟨o, encodedParameters, p⟩).length = p.length + 276 := by
  rw [encode_eq_append ho, List.length_append, List.length_append, length_front hp, ho,
    length_publicElements hp, privateOffset, PrivateKey.size]
  omega

theorem length_encode_lt (hp : KeyLength p) (ho : o.length = PrivateKey.size) :
    (encode ⟨o, encodedParameters, p⟩).length < 2 ^ 63 := by
  have hle := hp.le
  rw [length_encode hp ho]
  omega

end Record

namespace KeyPair

open Record

variable {k : KeyPair} {o : Bytes}

/-- The record of a pair has one of two lengths. -/
theorem length_toRecord (k : KeyPair) :
    k.toRecord.length = if k.isCompressed = true then 309 else 341 := by
  rw [toRecord, length_encode k.sized_toRecord.publicOctets k.privateKey.length_toBytes,
    PublicKey.length_encode, isCompressed]
  split_ifs <;> rfl

/-! ### Another private key -/

theorem exchange_toRecord (k : KeyPair) (ho : o.length = PrivateKey.size) :
    exchange k.toRecord o = encode ⟨o, encodedParameters, k.publicKey.encode⟩ :=
  exchange_encode k.sized_toRecord.publicOctets k.privateKey.length_toBytes ho

/-- Other octets in the record of a matched pair are noticed by the public key. -/
theorem Matched.ofRecord_exchange (hm : k.Matched) (ho : o.length = PrivateKey.size)
    (h₀ : BigEndian.value o % order ≠ 0)
    (hne : BigEndian.value o % order ≠ k.privateKey.scalar.value) :
    (ofRecord (exchange k.toRecord o) .lenient).result = .error .keyMismatch := by
  have hl : KeyLength k.publicKey.encode := k.sized_toRecord.publicOctets
  have hlt : BigEndian.value o % order < order := Nat.mod_lt _ order_pos
  have hnd : ¬ order ∣ BigEndian.value o % order :=
    Nat.not_dvd_of_pos_of_lt (Nat.pos_of_ne_zero h₀) hlt
  -- The key of the other octets, in the form of the one that the record carries.
  obtain ⟨l, hsum, hc⟩ := PublicKey.exists_isSum hnd k.publicKey.compressed
  have hp : k.publicKey.encode ≠ l.encode := by
    intro e
    have hmod := (PublicKey.IsSum.encode_inj_iff hm hsum hc.symm).mp e
    exact hne (hmod.eq_of_lt_of_lt k.privateKey.value_lt_order hlt).symm
  have ho₁ : 1 ≤ o.length := by
    rw [ho]
    decide
  have hv := ofRecord_encode_verdict .lenient ho₁ ho.le (length_encode_lt hl ho)
  rw [exchange_toRecord k ho]
  exact hv.unique (.mismatch hl (KeyTag.encode k.publicKey) (Policy.refusal?_lenient h₀) hsum
    (hc.trans k.publicKey.compressed_eq) hp)

/-- **An exchanged private key is noticed.**  The encodings of two derived keys in one form are equal
exactly when their scalars leave the same remainder, for scalars of at most 67108848 octets; one of
more octets derives nothing.  So the record of a pair with other octets in place of its private key
is refused, unless they denote the same number up to the order. -/
theorem exchange_refused (d₁ d₂ : Scalar) :
    (d₁.byteLength ≤ Scalar.maxDivided → d₂.byteLength ≤ Scalar.maxDivided →
      ¬ order ∣ d₁.value → ¬ order ∣ d₂.value →
      ∃ k₁ k₂, (PublicKey.derive d₁).result = .ok k₁ ∧ (PublicKey.derive d₂).result = .ok k₂ ∧
        ∀ c, (k₁.withCompression c).encode = (k₂.withCompression c).encode ↔
          d₁.value ≡ d₂.value [MOD order]) ∧
    (Scalar.maxDivided < d₁.byteLength → d₁.byteLength < 2 ^ 32 →
      ∃ failure, (PublicKey.derive d₁).result = .error (.failed failure)) ∧
    ∀ k : KeyPair, k.Constructed →
      (k.toRecord.drop privateOffset).take PrivateKey.size = k.privateKey.toBytes ∧
      ∀ o : Bytes, o.length = PrivateKey.size → BigEndian.value o % order ≠ 0 →
        BigEndian.value o % order ≠ k.privateKey.scalar.value →
        (ofRecord (exchange k.toRecord o) .lenient).result = .error .keyMismatch := by
  refine ⟨fun hw₁ hw₂ h₁ h₂ => ?_, fun hw hlt => ?_, fun k hk => ⟨?_, fun o ho h₀ hne => ?_⟩⟩
  · obtain ⟨k₁, e₁, s₁, -⟩ := PublicKey.exists_derive hw₁ h₁
    obtain ⟨k₂, e₂, s₂, -⟩ := PublicKey.exists_derive hw₂ h₂
    refine ⟨k₁, k₂, e₁, e₂, fun c => ?_⟩
    exact (s₁.withCompression c).encode_inj_iff (s₂.withCompression c) rfl
  · rw [← Scalar.toldLength_of_lt hlt] at hw
    obtain ⟨failure, _, -, hd⟩ := PublicKey.derive_failed hw
    exact ⟨failure, hd⟩
  · exact take_privateOffset k.sized_toRecord.publicOctets k.privateKey.length_toBytes
  · exact hk.matched.ofRecord_exchange ho h₀ hne

/-- A power of 256 is not a multiple of the order. -/
theorem not_order_dvd_one_zeros (n : Nat) :
    ¬ order ∣ (Scalar.ofBytes (1 :: List.replicate n 0)).value := by
  rw [Scalar.value_ofBytes, BigEndian.value_cons, BigEndian.value_replicate_zero,
    List.length_replicate, Nat.add_zero]
  intro h
  rcases order_prime.dvd_mul.mp h with h | h
  · exact absurd h (by decide)
  · exact absurd (order_prime.dvd_of_dvd_pow h) (by decide)

/-- A scalar of too many octets that is no multiple of the order. -/
theorem exchange_refused_wide :
    ¬ order ∣ (Scalar.ofBytes (1 :: List.replicate 67108856 0)).value ∧
      ∃ failure, (PublicKey.derive (.ofBytes (1 :: List.replicate 67108856 0))).result =
        .error (.failed failure) := by
  have hl : (1 :: List.replicate 67108856 (0 : UInt8)).length = Scalar.maxHeld + 1 := by
    rw [List.length_cons, List.length_replicate]
    rfl
  obtain ⟨failure, _, -, h⟩ :=
    PublicKey.derive_failed (Scalar.maxDivided_lt_toldLength (by decide) hl)
  exact ⟨not_order_dvd_one_zeros _, failure, h⟩

theorem exchange_refused_one_two :
    (∃ k₁ k₂, (PublicKey.derive (.ofNat 1)).result = .ok k₁ ∧
      (PublicKey.derive (.ofNat 2)).result = .ok k₂ ∧
      (k₁.withCompression true).encode ≠ (k₂.withCompression true).encode) ∧
    ∃ k, (ofScalar (some (.ofNat 1)) true .lenient).result = .ok k ∧
      (ofRecord (exchange k.toRecord (List.replicate 31 0 ++ [2])) .lenient).result =
        .error .keyMismatch := by
  have hd₁ : ¬ order ∣ (Scalar.ofNat 1).value := by
    rw [Scalar.value_ofNat]
    decide
  have hd₂ : ¬ order ∣ (Scalar.ofNat 2).value := by
    rw [Scalar.value_ofNat]
    decide
  have hw₁ : (Scalar.ofNat 1).byteLength ≤ Scalar.maxDivided := by decide
  have hw₂ : (Scalar.ofNat 2).byteLength ≤ Scalar.maxDivided := by decide
  have hr : Policy.lenient.refusal? ((Scalar.ofNat 1).value % order) = none := by
    rw [Scalar.value_ofNat]
    rfl
  obtain ⟨k, hk, -, hv, -⟩ := ofScalar_accepted true hw₁ hr
  have hres : (ofScalar (some (.ofNat 1)) true .lenient).result = .ok k := by
    rw [hk]
    rfl
  obtain ⟨hderive, -, hrecord⟩ := exchange_refused (.ofNat 1) (.ofNat 2)
  obtain ⟨k₁, k₂, e₁, e₂, hinj⟩ := hderive hw₁ hw₂ hd₁ hd₂
  refine ⟨⟨k₁, k₂, e₁, e₂, fun e => ?_⟩, k, hres, ?_⟩
  · have hmod := (hinj true).mp e
    rw [Scalar.value_ofNat, Scalar.value_ofNat] at hmod
    exact absurd hmod (by decide)
  · refine (hrecord k (.scalar hres)).2 _ rfl (by decide) ?_
    rw [hv, Scalar.value_ofNat]
    decide

end KeyPair

end CurveKeys
