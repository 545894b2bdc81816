import CurveKeys.Proofs.Keys.Constructed

/-!
# Keys — the strict policy

The strict policy refuses one number more than the lenient one.  So a private key, a pair or a
record is worth the same under both, reports included, unless its number is 1; and then the strict
policy ends with a refusal, before the public key of a record is looked at.

* `PrivateKey.ofScalar_strict_of_ne`, `KeyPair.ofScalar_strict_of_ne`,
  `Record.Parts.toPair_strict_of_ne`: the two policies agree on all other numbers.
* `Policy.Restricts`: how the results under the two policies are related.
* `KeyPair.strict_restricts`: they are, for each way to come to a key by its number.
-/

namespace CurveKeys

open Curve

theorem Policy.refusal?_strict_one : Policy.strict.refusal? 1 = some .scalarOne := rfl

theorem Curve.one_lt_order : 1 < order := by decide

namespace PrivateKey

variable {d : Scalar}

theorem parse_strict_of_ne (h : d.value ≠ 1) : parse d .strict = parse d .lenient := by
  have ho : d.isOne = false := Bool.eq_false_iff.mpr (mt Scalar.isOne_iff.mp h)
  rw [parse, parse, ho, Bool.and_false, Bool.and_false]

theorem ofScalar_strict_of_ne (h : d.value ≠ 1) : ofScalar d .strict = ofScalar d .lenient := by
  rw [ofScalar, ofScalar, parse_strict_of_ne h]

theorem scalar_of_ofScalar {policy : Policy} {k : PrivateKey}
    (h : (ofScalar d policy).result = .ok k) : k.scalar = d := by
  rw [ofScalar] at h
  rcases hp : parse d policy with cause | l
  · rw [hp] at h
    cases h
  · rw [hp] at h
    cases h
    rw [parse] at hp
    split_ifs at hp
    cases hp
    rfl

end PrivateKey

namespace KeyPair

variable {d : Scalar} {b : Bytes} {c : Bool}

theorem ofScalar_strict_of_ne (hd : d.byteLength ≤ Scalar.maxDivided)
    (h : d.value % order ≠ 1) :
    ofScalar (some d) c .strict = ofScalar (some d) c .lenient := by
  rw [← Scalar.value_ofNat (d.value % order)] at h
  rw [ofScalar, ofScalar, reduce_eq hd, Traced.pure_bind, Traced.pure_bind,
    PrivateKey.ofScalar_strict_of_ne h]

theorem ofBytes_strict_of_ne (hb : (Scalar.ofBytes b).byteLength ≤ Scalar.maxDivided)
    (h : BigEndian.value b % order ≠ 1) : ofBytes b c .strict = ofBytes b c .lenient := by
  rw [← Scalar.value_ofBytes] at h
  exact ofScalar_strict_of_ne hb h

end KeyPair

namespace Record

variable {r : Bytes} {parts : Parts}

theorem Parts.toPair_strict_of_ne (ho : parts.privateOctets.length ≤ PrivateKey.size)
    (h : BigEndian.value parts.privateOctets % order ≠ 1) :
    parts.toPair .strict = parts.toPair .lenient := by
  rw [toPair, toPair, KeyPair.ofBytes_strict_of_ne (byteLength_ofBytes_le ho) h]

/-- A record of the number 1, well-formed and with a supported tag, that carries the public key of
another number. -/
def MismatchedOne (r : Bytes) : Prop :=
  ∃ parts, Framed .basic r parts ∧ parts.Sized ∧ KeyTag parts.publicOctets ∧
    BigEndian.value parts.privateOctets % order = 1 ∧
    ∀ k : PublicKey, k.IsSum 1 → k.encode ≠ parts.publicOctets

theorem mismatchedOne_iff (hp : parse r = .ok parts) :
    MismatchedOne r ↔ KeyTag parts.publicOctets ∧
      BigEndian.value parts.privateOctets % order = 1 ∧
      ∀ k : PublicKey, k.IsSum 1 → k.encode ≠ parts.publicOctets := by
  constructor
  · rintro ⟨parts', hf, -, h⟩
    obtain rfl := hf.unique hp
    exact h
  · intro h
    obtain ⟨hf, hs⟩ := parse_eq_ok_iff.mp hp
    exact ⟨parts, hf, hs, h⟩

theorem MismatchedOne.exists_parse (h : MismatchedOne r) : ∃ parts, parse r = .ok parts := by
  obtain ⟨parts, hf, hs, -⟩ := h
  exact ⟨parts, parse_eq_ok_iff.mpr ⟨hf, hs⟩⟩

end Record

/-! ### Two results -/

/-- The results under the two policies: what succeeds with another number than 1 stays, what
succeeds with the number 1 is refused, and what fails still fails in the same way, apart from an
exception, where a mismatch of the keys becomes a refusal. -/
structure Policy.Restricts {α : Type} (number : α → Nat) (exception : Prop)
    (lenient strict : Except KeyError α) : Prop where
  accepted : ∀ k, lenient = .ok k → number k ≠ 1 → strict = .ok k
  refused : ∀ k, lenient = .ok k → number k = 1 → strict = .error (.invalidKey .scalarOne)
  failed : ∀ e, lenient = .error e → ¬ exception → strict = .error e
  mismatched : exception →
    lenient = .error .keyMismatch ∧ strict = .error (.invalidKey .scalarOne)

namespace Policy.Restricts

variable {α : Type} {number : α → Nat} {exception : Prop} {lenient strict : Except KeyError α}

/-- Nothing changes unless the number is 1. -/
theorem of_eq (h : strict = lenient) (hn : ∀ k, lenient = .ok k → number k ≠ 1)
    (hx : ¬ exception) : Restricts number exception lenient strict :=
  ⟨fun _ hk _ => h.trans hk, fun k hk h₁ => absurd h₁ (hn k hk), fun _ he _ => h.trans he,
    fun h => absurd h hx⟩

theorem of_error {e : KeyError} (hl : lenient = .error e) (hs : strict = .error e)
    (hx : ¬ exception) : Restricts number exception lenient strict := by
  refine .of_eq (hs.trans hl.symm) (fun k hk => ?_) hx
  rw [hl] at hk
  cases hk

theorem of_one {k : α} (hl : lenient = .ok k) (hk : number k = 1)
    (hs : strict = .error (.invalidKey .scalarOne)) (hx : ¬ exception) :
    Restricts number exception lenient strict := by
  subst hl
  refine ⟨fun l hl h₁ => ?_, fun _ _ _ => hs, nofun, fun h => absurd h hx⟩
  cases hl
  exact absurd hk h₁

theorem of_mismatch (hl : lenient = .error .keyMismatch)
    (hs : strict = .error (.invalidKey .scalarOne)) (hx : exception) :
    Restricts number exception lenient strict := by
  subst hl
  exact ⟨nofun, nofun, fun _ _ h => absurd hx h, fun _ => ⟨rfl, hs⟩⟩

end Policy.Restricts

open Policy Record

/-! ### The ways to a key -/

theorem PrivateKey.restricts (d : Scalar) :
    Restricts (fun k : PrivateKey => k.scalar.value) False (ofScalar d .lenient).result
      (ofScalar d .strict).result := by
  by_cases h : d.value = 1
  · have hlt : d.value < order := h ▸ one_lt_order
    obtain ⟨k, hk, hkd⟩ :=
      ofScalar_accepted (refusal?_lenient (h ▸ Nat.one_ne_zero)) hlt
    refine .of_one (congrArg Traced.result hk) (hkd ▸ h) ?_ not_false
    rw [ofScalar_refused (h ▸ refusal?_strict_one)]
    rfl
  · refine .of_eq (by rw [ofScalar_strict_of_ne h]) (fun k hk => ?_) not_false
    rw [scalar_of_ofScalar hk]
    exact h

namespace KeyPair

/-- The number of a pair. -/
def number (k : KeyPair) : Nat := k.privateKey.scalar.value

theorem restricts_ofScalar (d : Option Scalar) (c : Bool) :
    Restricts number False (ofScalar d c .lenient).result (ofScalar d c .strict).result := by
  cases d with
  | none => exact .of_error rfl rfl not_false
  | some d =>
      rcases Nat.lt_or_ge Scalar.maxDivided d.toldLength with hwide | hle
      · obtain ⟨_, _, hf⟩ := ofScalar_failed hwide
        exact .of_error (congrArg Traced.result (hf c .lenient))
          (congrArg Traced.result (hf c .strict)) not_false
      rw [← ofScalar_told d c .lenient, ← ofScalar_told d c .strict]
      rw [← d.byteLength_told] at hle
      by_cases h : d.told.value % order = 1
      · have hn : Policy.lenient.refusal? (d.told.value % order) = none :=
          refusal?_lenient (h ▸ Nat.one_ne_zero)
        obtain ⟨k, hk, -, hv, -⟩ := ofScalar_accepted c hle hn
        refine .of_one (congrArg Traced.result hk) (hv.trans h) ?_ not_false
        rw [ofScalar_refused hle (h ▸ refusal?_strict_one)]
        rfl
      · refine .of_eq (by rw [ofScalar_strict_of_ne hle h]) (fun k hk => ?_) not_false
        rw [ofScalar_told] at hk
        obtain ⟨_, hd, -, -, -, hv, -⟩ := ofScalar_ok hk
        cases hd
        exact ne_of_eq_of_ne hv h

theorem number_of_ofRecord {r : Bytes} {parts : Parts} {policy : Policy} {k : KeyPair}
    (hp : parse r = .ok parts) (h : (ofRecord r policy).result = .ok k) :
    number k = BigEndian.value parts.privateOctets % order := by
  obtain ⟨parts', hp', hv⟩ := exists_of_ofRecord h
  obtain rfl : parts = parts' := Except.ok.inj (hp.symm.trans hp')
  cases hv with
  | pair _ _ _ hd _ _ _ => exact hd

/-- With the number 1 the strict policy does not come to the public key, and the lenient one finds
that it matches, or that it does not. -/
theorem restricts_of_one {r : Bytes} {parts : Parts} (hp : parse r = .ok parts)
    (ht : supportedTag? parts.publicOctets = none)
    (h : BigEndian.value parts.privateOctets % order = 1) :
    Restricts number (MismatchedOne r) (parts.toPair .lenient).result
      (parts.toPair .strict).result := by
  have ho := (parse_eq_ok_iff.mp hp).2.privateOctets.2
  have hs : (parts.toPair .strict).result = .error (.invalidKey .scalarOne) := by
    rw [Parts.toPair_refused ho ht (h ▸ refusal?_strict_one)]
    rfl
  obtain ⟨k, hm, hv, hc, hl⟩ := Parts.toPair_eq parts .lenient ho ht
    (refusal?_lenient (h ▸ Nat.one_ne_zero))
  rw [h] at hv
  have hone : k.publicKey.IsSum 1 := hv ▸ hm
  by_cases he : k.publicKey.encode = parts.publicOctets
  · rw [if_pos he] at hl
    refine .of_one (congrArg Traced.result hl) hv hs fun hx => ?_
    exact ((mismatchedOne_iff hp).mp hx).2.2 _ hone he
  · rw [if_neg he] at hl
    refine .of_mismatch (congrArg Traced.result hl) hs ((mismatchedOne_iff hp).mpr ?_)
    have hk := keyTag_of_supportedTag? (parse_eq_ok_iff.mp hp).2.publicOctets ht
    refine ⟨hk, h, fun l hl₁ hle => he ?_⟩
    -- The form of the key in the record shows in the length of its octets.
    rw [← hle] at hc ⊢
    rw [hone.ext hl₁ (hc.trans l.compressed_eq.symm)]

theorem restricts_ofRecord (r : Bytes) :
    Restricts number (MismatchedOne r) (ofRecord r .lenient).result
      (ofRecord r .strict).result := by
  rcases hp : parse r with cause | parts
  · have hx : ¬ MismatchedOne r := by
      intro hx
      obtain ⟨parts, hp'⟩ := hx.exists_parse
      rw [hp] at hp'
      cases hp'
    rw [ofRecord, ofRecord, hp]
    exact .of_error rfl rfl hx
  rw [ofRecord_eq hp, ofRecord_eq hp]
  by_cases h : BigEndian.value parts.privateOctets % order = 1
  · rcases ht : supportedTag? parts.publicOctets with _ | tag
    · exact restricts_of_one hp ht h
    · obtain ⟨-, -, hk⟩ := exists_of_supportedTag? ht
      rw [Parts.toPair, Parts.toPair, ht]
      exact .of_error rfl rfl fun hx => hk ((mismatchedOne_iff hp).mp hx).1
  · have ho := (parse_eq_ok_iff.mp hp).2.privateOctets.2
    refine .of_eq (by rw [Parts.toPair_strict_of_ne ho h]) (fun k hk => ?_) fun hx => ?_
    · rw [← ofRecord_eq hp] at hk
      rw [number_of_ofRecord hp hk]
      exact h
    · exact h ((mismatchedOne_iff hp).mp hx).2.1

/-- **The strict policy is a restriction.**  For each way to come to a key by its number, what the
lenient policy accepts the strict one accepts as well unless the number is 1, which it refuses; and
what the lenient policy refuses the strict one refuses for the same reason, except that a record of
the number 1 with the public key of another number is refused for its number. -/
theorem strict_restricts :
    (∀ d, Restricts (fun k : PrivateKey => k.scalar.value) False
      (PrivateKey.ofScalar d .lenient).result (PrivateKey.ofScalar d .strict).result) ∧
    (∀ d c, Restricts number False (ofScalar d c .lenient).result (ofScalar d c .strict).result) ∧
    (∀ b c, Restricts number False (ofBytes b c .lenient).result (ofBytes b c .strict).result) ∧
    ∀ r, Restricts number (MismatchedOne r) (ofRecord r .lenient).result
      (ofRecord r .strict).result :=
  ⟨PrivateKey.restricts, restricts_ofScalar, fun b => restricts_ofScalar (some (.ofBytes b)),
    restricts_ofRecord⟩

/-- The scalar one above the order, octets of the number 2, and the public key of 2 in a record of
the number 1. -/
theorem strict_restricts_order_add_one :
    (ofScalar (some (.ofNat (order + 1))) true .strict).result = .error (.invalidKey .scalarOne) ∧
    (ofScalar none true .strict).result = .error (.invalidKey .scalarRequired) ∧
    ∃ k, (ofBytes [2] true .strict).result = .ok k ∧
      (ofRecord (encode ⟨[1], [], k.publicKey.encode⟩) .lenient).result = .error .keyMismatch ∧
      (ofRecord (encode ⟨[1], [], k.publicKey.encode⟩) .strict).result =
        .error (.invalidKey .scalarOne) := by
  obtain ⟨-, hscalar, hbytes, hrecord⟩ := strict_restricts
  have h₁ : (Scalar.ofNat (order + 1)).value % order = 1 := by
    rw [Scalar.value_ofNat]
    decide
  have hw₁ : (Scalar.ofNat (order + 1)).byteLength ≤ Scalar.maxDivided :=
    Scalar.byteLength_ofNat_le (by decide)
  obtain ⟨l, hl, -, hlv, -⟩ :=
    ofScalar_accepted true hw₁ (h₁.symm ▸ refusal?_lenient Nat.one_ne_zero)
  have hr : Policy.lenient.refusal? (BigEndian.value [2] % order) = none := by decide
  have hw₂ : (Scalar.ofBytes [2]).byteLength ≤ Scalar.maxDivided := by decide
  obtain ⟨k, hk, hkm, hkv, -⟩ := ofBytes_accepted true hw₂ hr
  have hkv : k.privateKey.scalar.value = 2 := hkv.trans (by decide)
  have htwo : k.publicKey.IsSum 2 := hkv ▸ hkm
  have hx : MismatchedOne (encode ⟨[1], [], k.publicKey.encode⟩) := by
    have ho : 1 ≤ ([1] : Bytes).length ∧ ([1] : Bytes).length ≤ PrivateKey.size := by decide
    have hl : ([] : Bytes).length + 200 < 2 ^ 63 := by decide
    have hone : BigEndian.value [1] % order = 1 := by decide
    have hs : Parts.Sized ⟨[1], [], k.publicKey.encode⟩ := ⟨ho, k.sized_toRecord.publicOctets⟩
    have hf := (length_encodedElements_le hs (Nat.lt_of_add_right_lt hl)).trans_lt hl
    refine ⟨_, framed_encode hf, hs, KeyTag.encode _, hone, fun j hj he => ?_⟩
    have hc : j.compressed = k.publicKey.compressed := by
      rw [j.compressed_eq, he, k.publicKey.compressed_eq]
    exact absurd ((hj.encode_inj_iff htwo hc).mp he) (by decide)
  exact ⟨(hscalar _ true).refused l (congrArg Traced.result hl) (hlv.trans h₁),
    (hscalar none true).failed _ rfl not_false, k,
    (hbytes [2] true).accepted k (congrArg Traced.result hk) (by rw [number, hkv]; decide),
    (hrecord _).mismatched hx⟩

end KeyPair

end CurveKeys
