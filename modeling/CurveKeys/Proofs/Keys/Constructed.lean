import CurveKeys.Proofs.Keys.Generation
import CurveKeys.Proofs.Keys.Recorded

/-!
# Keys — where pairs come from

A pair comes from a scalar, from octets, from a source of draws or from a record
(`KeyPair.Constructed`).  Each of these derives the public key from the private key, so that its
record gives the pair back.

* `KeyPair.ofScalar_ok`: what is known of a pair of a scalar.
* `KeyPair.Constructed.matched`: the invariant, whichever way the pair was built.
-/

namespace CurveKeys.KeyPair

open Curve

variable {k : KeyPair}

/-- A pair that one of the four ways to build a pair gives. -/
inductive Constructed : KeyPair → Prop where
  | scalar {k : KeyPair} {d : Option Scalar} {c : Bool} {policy : Policy} :
      (ofScalar d c policy).result = .ok k → Constructed k
  | bytes {k : KeyPair} {b : Bytes} {c : Bool} {policy : Policy} :
      (ofBytes b c policy).result = .ok k → Constructed k
  | generated {k : KeyPair} {σ : Type} {source : Entropy.Source σ} {s : σ} :
      (generate source s).1.result = .ok k → Constructed k
  | record {k : KeyPair} {r : Bytes} {policy : Policy} :
      (ofRecord r policy).result = .ok k → Constructed k

/-! ### One way after the other -/

/-- **A pair of a scalar**: the remainder of what the arithmetic is told of it, in the form asked
for. -/
theorem ofScalar_ok {d : Option Scalar} {c : Bool} {policy : Policy}
    (h : (ofScalar d c policy).result = .ok k) :
    ∃ d', d = some d' ∧ d'.toldLength ≤ Scalar.maxDivided ∧
      policy.refusal? (d'.told.value % order) = none ∧ k.Matched ∧
      k.privateKey.scalar.value = d'.told.value % order ∧ k.isCompressed = c := by
  cases d with
  | none => cases h
  | some d =>
      rcases Nat.lt_or_ge Scalar.maxDivided d.toldLength with hwide | hle
      · obtain ⟨_, _, hf⟩ := ofScalar_failed hwide
        rw [hf] at h
        cases h
      have hd := d.byteLength_told ▸ hle
      rw [← ofScalar_told] at h
      rcases hr : policy.refusal? (d.told.value % order) with _ | cause
      · obtain ⟨l, hl, hm, hv, hc⟩ := ofScalar_accepted c hd hr
        rw [hl] at h
        cases h
        exact ⟨d, rfl, hle, hr, hm, hv, hc⟩
      · rw [ofScalar_refused hd hr] at h
        cases h

/-! ### The invariant -/

/-- **The keys of a pair match**, wherever it comes from. -/
theorem Constructed.matched (h : k.Constructed) : k.Matched := by
  cases h with
  | scalar h | bytes h =>
      obtain ⟨_, _, _, _, hm, _, _⟩ := ofScalar_ok h
      exact hm
  | @generated _ source s h =>
      have hs := generate_sampled source s
      rw [h] at hs
      cases hs with
      | accepted _ _ _ _ hm _ _ => exact hm
  | record h =>
      obtain ⟨parts, -, hv⟩ := exists_of_ofRecord h
      cases hv with
      | pair _ _ _ _ hm _ _ => exact hm

/-- **Round trip**: the record of a pair gives the pair back, and so does the strict policy unless
its number is 1; what is read is written again in the same octets. -/
theorem Constructed.roundTrip (h : k.Constructed) :
    ∃ r, (k.writeRecord : Traced KeyError Bytes).result = .ok r ∧
      (ofRecord r .lenient).result = .ok k ∧
      (∀ l, (ofRecord r .lenient).result = .ok l →
        (l.writeRecord : Traced KeyError Bytes).result = .ok r) ∧
      (k.privateKey.scalar.value ≠ 1 → (ofRecord r .strict).result = .ok k) := by
  have hz := k.privateKey.value_ne_zero
  have hl : ofRecord k.toRecord .lenient = pure k :=
    h.matched.ofRecord_toRecord (Policy.refusal?_eq_none_iff.mpr ⟨hz, nofun⟩)
  have hw : (k.writeRecord : Traced KeyError Bytes).result = .ok k.toRecord := by
    rw [writeRecord_eq]
  refine ⟨k.toRecord, hw, ?_, ?_, ?_⟩
  · rw [hl]
    rfl
  · intro l e
    rw [hl] at e
    cases e
    exact hw
  · intro h₁
    rw [h.matched.ofRecord_toRecord (Policy.refusal?_eq_none_iff.mpr ⟨hz, fun e => h₁ e.2⟩)]
    rfl

theorem Constructed.roundTrip_two :
    ∃ k, (ofScalar (some (.ofNat 2)) false .strict).result = .ok k ∧
      ∃ r, (k.writeRecord : Traced KeyError Bytes).result = .ok r ∧
        (ofRecord r .lenient).result = .ok k ∧ (ofRecord r .strict).result = .ok k := by
  have hr : Policy.strict.refusal? ((Scalar.ofNat 2).value % order) = none := by
    rw [Scalar.value_ofNat]
    rfl
  have hw : (Scalar.ofNat 2).byteLength ≤ Scalar.maxDivided :=
    Scalar.byteLength_ofNat_le (by decide)
  obtain ⟨k, hk, -, hv, -⟩ := ofScalar_accepted false hw hr
  have hres : (ofScalar (some (.ofNat 2)) false .strict).result = .ok k := by
    rw [hk]
    rfl
  obtain ⟨r, hw, hl, -, hs⟩ := Constructed.roundTrip (.scalar hres)
  refine ⟨k, hres, r, hw, hl, hs ?_⟩
  rw [hv, Scalar.value_ofNat]
  decide

end CurveKeys.KeyPair
