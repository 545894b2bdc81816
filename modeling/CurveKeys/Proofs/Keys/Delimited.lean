import CurveKeys.Proofs.Keys.Recorded

/-!
# Keys — where a record ends

The octets of a record say themselves where it ends, in whichever way it is framed.  So nothing that
goes on after an accepted record is accepted, and nothing that stops before its end is: a beginning
that was well formed would make what is missing a fault of the whole (`Record.Framed.parse_append`).

* `KeyPair.ofRecord_prefixFree`: accepted records are prefix-free.
-/

namespace CurveKeys.KeyPair

open Asn1 Asn1.Header Record

variable {policy : Policy} {r s t : Bytes} {k : KeyPair}

theorem ofRecord_append {parts : Parts} (h : parse r = .ok parts) (ht : t ≠ []) (policy : Policy) :
    (ofRecord (r ++ t) policy).result = .error (.malformedRecord (.trailing t.length)) := by
  rw [ofRecord, (parse_eq_ok_iff.mp h).1.parse_append ht]
  rfl

/-- A beginning of a record is not one itself. -/
theorem ofRecord_beginning {parts : Parts} (h : parse r = .ok parts) (hs : s <+: r) (hne : s ≠ r)
    (policy : Policy) : ∃ cause, (ofRecord s policy).result = .error (.malformedRecord cause) := by
  obtain ⟨t, rfl⟩ := hs
  have ht : t ≠ [] := by
    rintro rfl
    exact hne (List.append_nil s).symm
  rcases hp : parse s with cause | parts'
  · refine ⟨cause, ?_⟩
    rw [ofRecord, hp]
    rfl
  · rw [(parse_eq_ok_iff.mp hp).1.parse_append ht] at h
    cases h

/-- **Accepted records are prefix-free**: under any policy, a proper beginning of an accepted record
is malformed, and so is the record with more octets after it. -/
theorem ofRecord_prefixFree (h : (ofRecord r policy).result = .ok k) (policy' : Policy) :
    (∀ s, s <+: r → s ≠ r →
      ∃ cause, (ofRecord s policy').result = .error (.malformedRecord cause)) ∧
    ∀ t, t ≠ [] →
      (ofRecord (r ++ t) policy').result = .error (.malformedRecord (.trailing t.length)) := by
  obtain ⟨parts, hp, -⟩ := exists_of_ofRecord h
  exact ⟨fun s hs hne => ofRecord_beginning hp hs hne policy',
    fun t ht => ofRecord_append hp ht policy'⟩

/-- The small record of the scalar 1, with an end mark in place of the outer length. -/
def markedRecord : Bytes := [0x30, 0x80] ++ ((encodedElements onesParts).flatten ++ [0, 0])

theorem framed_markedRecord : Framed .basic markedRecord onesParts := by
  have hl := length_elements_onesParts
  refine framed_of_sequence (by rw [hl]; decide) (.indefinite ?_)
  exact announces_of_short (by decide) .indefinite (fun h => absurd h (by decide)) rfl

/-- Half of the end mark is missing, and there is one mark too many. -/
theorem ofRecord_prefixFree_markedRecord :
    ∃ k, (ofRecord markedRecord .lenient).result = .ok k ∧
      (∃ cause, (ofRecord markedRecord.dropLast .lenient).result =
        .error (.malformedRecord cause)) ∧
      (ofRecord (markedRecord ++ [0, 0]) .strict).result =
        .error (.malformedRecord (.trailing 2)) := by
  obtain ⟨k, hk⟩ := ofRecord_of_onesParts framed_markedRecord
  refine ⟨k, hk, (ofRecord_prefixFree hk .lenient).1 _ (List.dropLast_prefix _) fun e => ?_,
    (ofRecord_prefixFree hk .strict).2 [0, 0] (List.cons_ne_nil _ _)⟩
  have hl := congrArg List.length e
  rw [List.length_dropLast] at hl
  exact absurd hl (by decide)

end CurveKeys.KeyPair
