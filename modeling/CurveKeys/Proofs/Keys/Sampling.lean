import CurveKeys.Proofs.Keys.Generation

/-!
# Keys — rejection sampling

A source that never fails is known by the stream of its draws.  A generation from it takes the first
draw in the range of private keys among the first 64, with its number as it is, and leaves the source
in the state after that draw; when there is none it leaves the source in the state after 64 draws.

* `KeyPair.generateWithin_after`: draws out of range only move the source on.
* `KeyPair.generate_stream`: what is generated from a stream, and how much of it is used.
-/

namespace CurveKeys

open Curve

namespace Entropy

variable (draws : Nat → Bytes) (size n i : Nat)

theorem after_replay : (replay draws).after size n i = i + n := by
  induction n generalizing i with
  | zero => rfl
  | succ n ih => exact (ih _).trans (Nat.add_right_comm i 1 n)

theorem nthDraw_replay :
    (replay draws).nthDraw size n i = .ok (Bytes.fit size (draws (i + n))) := by
  have h := congrArg Prod.fst ((replay draws).draw_after size n i)
  rw [after_replay] at h
  exact h.symm

end Entropy

namespace KeyPair

variable {σ : Type} {source : Entropy.Source σ} {s : σ} {left drawn n : Nat}

/-- **Draws out of range** only move the source on. -/
theorem generateWithin_after (h : ∀ i < n, Dropped source s i) :
    generateWithin source (left + n) drawn s =
      generateWithin source left (drawn + n) (source.after PrivateKey.size n s) := by
  induction n generalizing drawn s with
  | zero => rfl
  | succ n ih =>
      obtain ⟨draw, hd, hr⟩ := h 0 (Nat.succ_pos n)
      have hd : source.draw PrivateKey.size s = (.ok draw, (source.draw PrivateKey.size s).2) :=
        Prod.ext hd rfl
      rw [← Nat.add_assoc, generateWithin_dropped hd hr,
        ih fun i hi => h (i + 1) (Nat.succ_lt_succ hi), Nat.add_right_comm]
      rfl

/-- **Rejection sampling** from a source that never fails: the pair of the first draw in range, of
exactly its number and in compressed form, after as many draws as it takes and no more; failure
after 64 draws out of range.  The keys of a draw are never refused. -/
theorem generate_stream {draws : Nat → Bytes}
    (hs : ∀ i, source.nthDraw PrivateKey.size i s = .ok (draws i)) :
    (∀ n < 64, (∀ i < n, ¬ InRange (draws i)) → InRange (draws n) →
      ∃ k, generate source s =
          (⟨.ok k, [generatedNote (n + 1)]⟩, source.after PrivateKey.size (n + 1) s) ∧
        k.Matched ∧ k.privateKey.scalar.value = BigEndian.value (draws n) ∧
        k.isCompressed = true) ∧
    ((∀ i < 64, ¬ InRange (draws i)) →
      generate source s =
        (.fail .exhausted exhaustedNote, source.after PrivateKey.size 64 s)) ∧
    ∀ cause, (generate source s).1.result ≠ .error (.refused cause) := by
  refine ⟨fun n hn hout hin => ?_, fun hout => ?_, generate_ne_refused⟩
  · -- The draws in front of the first one in range leave at least one more to make.
    obtain ⟨left, hl⟩ : ∃ left, maxDraws = left + 1 + n := ⟨63 - n, by rw [maxDraws]; omega⟩
    have hd := source.draw_after PrivateKey.size n s
    rw [hs n] at hd
    rw [generate, hl, generateWithin_after fun i hi => ⟨_, hs i, hout i hi⟩, Nat.zero_add]
    exact generateWithin_inRange left n hd hin
  · exact @generateWithin_after _ source s 0 0 64 fun i hi => ⟨_, hs i, hout i hi⟩

/-- The draws 0, the order, and 2 from then on. -/
def zeroOrderTwo (i : Nat) : Bytes :=
  BigEndian.encode 32 (if i = 0 then 0 else if i = 1 then order else 2)

/-- Three draws of a source, and a source of zeros. -/
theorem generate_stream_zeroOrderTwo :
    (∃ k, generate (Entropy.replay zeroOrderTwo) 0 = (⟨.ok k, [generatedNote 3]⟩, 3) ∧
      k.privateKey.scalar.value = 2 ∧ k.isCompressed = true) ∧
    generate (Entropy.replay fun _ => []) 0 = (.fail .exhausted exhaustedNote, 64) := by
  constructor
  · have hout : ∀ i < 2, ¬ InRange (Bytes.fit 32 (zeroOrderTwo (0 + i))) := by
      intro i hi
      interval_cases i <;> exact fun h => absurd h (by unfold InRange; decide)
    obtain ⟨k, hk, -, hv, hc⟩ := (generate_stream fun i =>
      Entropy.nthDraw_replay zeroOrderTwo 32 i 0).1 2 (by decide) hout ⟨by decide, by decide⟩
    exact ⟨k, hk, hv, hc⟩
  · have hz := (generate_stream fun i => Entropy.nthDraw_replay (fun _ => []) 32 i 0).2.1
      fun i _ h => absurd h (by unfold InRange; decide)
    rw [hz, Entropy.after_replay]

end KeyPair

end CurveKeys
