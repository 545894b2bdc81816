import CurveKeys.Proofs.Keys.Constructed

/-!
# Keys — private keys from octets

Octets denote a number, and of the number only the remainder by the order of the curve counts: it
decides whether there is a pair and which one.  The octets of a private key are one such string for
each remainder, so a pair is got back from its own.  Zeros in front do not count, but behind them
there can be more octets than the arithmetic divides.

* `KeyPair.ofBytes_congr`: octets with the same remainder give the same, reports included.
* `KeyPair.Matched.ofBytes_toBytes`: a pair from its own octets.
* `KeyPair.ofBytes_outcome`: what octets are worth as a private key.
-/

namespace CurveKeys

open Curve

/-- A policy refuses zero, and a strict one refuses 1. -/
theorem Policy.exists_refusal?_iff {policy : Policy} {m : Nat} :
    (∃ cause, policy.refusal? m = some cause) ↔ m = 0 ∨ policy.rejectOne = true ∧ m = 1 := by
  rw [← Option.isSome_iff_exists, ← Option.ne_none_iff_isSome, ne_eq, refusal?_eq_none_iff,
    not_and_not_right]
  tauto

namespace KeyPair

variable {b b' : Bytes} {c : Bool} {policy : Policy} {k : KeyPair}

/-- **Only the remainder counts**, for the result and for what is reported. -/
theorem ofBytes_congr (hb : (Scalar.ofBytes b).byteLength ≤ Scalar.maxDivided)
    (hb' : (Scalar.ofBytes b').byteLength ≤ Scalar.maxDivided)
    (h : BigEndian.value b ≡ BigEndian.value b' [MOD order]) (c : Bool) (policy : Policy) :
    ofBytes b c policy = ofBytes b' c policy := by
  have hr : reduce (.ofBytes b) = reduce (.ofBytes b') := by
    rw [reduce_eq hb, reduce_eq hb', Scalar.value_ofBytes, Scalar.value_ofBytes, h]
  rw [ofBytes, ofBytes, ofScalar, ofScalar, hr]

/-- **A pair from its own octets**, under a policy that does not refuse it. -/
theorem Matched.ofBytes_toBytes (hm : k.Matched)
    (h : policy.refusal? k.privateKey.scalar.value = none) :
    ofBytes k.privateKey.toBytes k.isCompressed policy = pure k := by
  have hv := k.privateKey.value_toBytes_mod
  rw [← hv] at h
  obtain ⟨l, hl, hlm, hlv, hlc⟩ := ofBytes_accepted k.isCompressed
    (byteLength_ofBytes_le k.privateKey.length_toBytes.le) h
  rw [hl, hlm.ext hm (hlv.trans hv) hlc]

/-- **What octets are worth as a private key**, up to 67108848 of them behind zeros: nothing when
their number is a multiple of the order, or is one more than a multiple under the strict policy, and
otherwise the pair of the remainder.  Octets with the same remainder give the same.  More octets
than that have no remainder and give no pair; and of more octets than 32 bits can count, only those
that are counted are looked at.  A pair is got back from the 32 octets of its private key. -/
theorem ofBytes_outcome (b : Bytes) (c : Bool) (policy : Policy) :
    ((Scalar.ofBytes b).byteLength ≤ Scalar.maxDivided →
      ((∃ cause, (ofBytes b c policy).result = .error (.invalidKey cause)) ↔
        BigEndian.value b % order = 0 ∨
          policy.rejectOne = true ∧ BigEndian.value b % order = 1) ∧
      (¬ (BigEndian.value b % order = 0 ∨
          policy.rejectOne = true ∧ BigEndian.value b % order = 1) →
        ∃ k, (ofBytes b c policy).result = .ok k ∧ k.Matched ∧
          k.privateKey.scalar.value = BigEndian.value b % order ∧ k.isCompressed = c) ∧
      ∀ b', (Scalar.ofBytes b').byteLength ≤ Scalar.maxDivided →
        BigEndian.value b ≡ BigEndian.value b' [MOD order] →
        ofBytes b c policy = ofBytes b' c policy) ∧
    (Scalar.maxDivided < (Scalar.ofBytes b).byteLength →
      (Scalar.ofBytes b).byteLength < 2 ^ 32 →
      ∃ failure, (ofBytes b c policy).result = .error (.failed failure)) ∧
    ofBytes b c policy = ofScalar (some (Scalar.ofBytes b).told) c policy ∧
    ∀ k : KeyPair, k.Constructed → k.privateKey.toBytes.length = 32 ∧
      (ofBytes k.privateKey.toBytes k.isCompressed .lenient).result = .ok k ∧
      (k.privateKey.scalar.value ≠ 1 →
        (ofBytes k.privateKey.toBytes k.isCompressed .strict).result = .ok k) := by
  refine ⟨fun hb => ?_, fun hb hlt => ?_, (ofScalar_told _ c policy).symm,
    fun k hk => ⟨k.privateKey.length_toBytes, ?_, fun h₁ => ?_⟩⟩
  · rw [← Policy.exists_refusal?_iff]
    rcases hr : policy.refusal? (BigEndian.value b % order) with _ | cause
    · obtain ⟨k, hk, hm, hv, hc⟩ := ofBytes_accepted c hb hr
      refine ⟨iff_of_false ?_ nofun, fun _ => ⟨k, by rw [hk]; rfl, hm, hv, hc⟩,
        fun b' hb' h => ofBytes_congr hb hb' h c policy⟩
      rintro ⟨cause, h⟩
      rw [hk] at h
      cases h
    · refine ⟨iff_of_true ⟨cause, ?_⟩ ⟨cause, rfl⟩, fun h => absurd ⟨cause, rfl⟩ h,
        fun b' hb' h => ofBytes_congr hb hb' h c policy⟩
      rw [ofBytes_refused hb hr]
      rfl
  · rw [← Scalar.toldLength_of_lt hlt] at hb
    obtain ⟨failure, _, hf⟩ := ofScalar_failed hb
    exact ⟨failure, congrArg Traced.result (hf c policy)⟩
  · rw [hk.matched.ofBytes_toBytes (Policy.refusal?_lenient k.privateKey.value_ne_zero)]
    rfl
  · have hr : Policy.strict.refusal? k.privateKey.scalar.value = none :=
      Policy.refusal?_eq_none_iff.mpr ⟨k.privateKey.value_ne_zero, fun e => h₁ e.2⟩
    rw [hk.matched.ofBytes_toBytes hr]
    rfl

/-- Too many octets, all of them `07`. -/
theorem ofBytes_outcome_wide :
    ∃ failure, (ofBytes (List.replicate 67108857 7) true .lenient).result =
      .error (.failed failure) := by
  have hb := Scalar.maxDivided_lt_toldLength (b := List.replicate 67108857 7)
    (by rw [List.head?_replicate]; decide) List.length_replicate
  obtain ⟨failure, _, h⟩ := ofScalar_failed hb
  exact ⟨failure, congrArg Traced.result (h true .lenient)⟩

/-- The order, one more and two more, in eight octets more than they need. -/
theorem ofBytes_outcome_order_add_two :
    (∃ cause, (ofBytes (BigEndian.encode 40 order) false .lenient).result =
      .error (.invalidKey cause)) ∧
    (∃ cause, (ofBytes (BigEndian.encode 40 (order + 1)) false .strict).result =
      .error (.invalidKey cause)) ∧
    ∃ k, (ofBytes (BigEndian.encode 40 (order + 2)) false .strict).result = .ok k ∧
      k.privateKey.scalar.value = 2 ∧
      ofBytes (BigEndian.encode 40 (order + 2)) false .strict = ofBytes [2] false .strict ∧
      (ofBytes k.privateKey.toBytes k.isCompressed .strict).result = .ok k := by
  have hout := fun b c policy => (ofBytes_outcome b c policy).1
  have hv : ∀ i < 3, BigEndian.value (BigEndian.encode 40 (order + i)) % order = i := by
    intro i hi
    rw [BigEndian.value_encode]
    interval_cases i <;> rfl
  have hw : ∀ i < 3,
      (Scalar.ofBytes (BigEndian.encode 40 (order + i))).byteLength ≤ Scalar.maxDivided := by
    intro i _
    refine (Scalar.byteLength_ofBytes_le _).trans ?_
    rw [BigEndian.length_encode]
    decide
  have hw₂ := hw 2 (by decide)
  have h₀ := hv 0 (by decide)
  have h₁ := hv 1 (by decide)
  have h₂ := hv 2 (by decide)
  have ha : ¬ (BigEndian.value (BigEndian.encode 40 (order + 2)) % order = 0 ∨
      Policy.strict.rejectOne = true ∧
        BigEndian.value (BigEndian.encode 40 (order + 2)) % order = 1) := by
    rw [h₂]
    decide
  obtain ⟨k, hk, -, hkv, -⟩ := (hout (BigEndian.encode 40 (order + 2)) false .strict hw₂).2.1 ha
  refine ⟨(hout _ false .lenient (hw 0 (by decide))).1.mpr (.inl h₀),
    (hout _ false .strict (hw 1 (by decide))).1.mpr (.inr ⟨rfl, h₁⟩),
    k, hk, hkv.trans h₂, (hout _ false .strict hw₂).2.2 [2] (by decide) h₂, ?_⟩
  obtain ⟨-, -, -, hback⟩ := ofBytes_outcome [2] false .strict
  exact (hback k (.bytes hk)).2.2 (by rw [hkv, h₂]; decide)

end KeyPair

end CurveKeys
