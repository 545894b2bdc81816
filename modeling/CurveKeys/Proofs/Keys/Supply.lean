import CurveKeys.Proofs.Entropy
import CurveKeys.Proofs.Keys.Sampling

/-!
# Keys — generation from the system

The system may deliver the same octets in other portions, and may interrupt at other places: what is
drawn from it stays the same.  A generation makes many draws, and a reply that is longer than its
request loses its end, so that there the portions must fit for the next draw to begin where the last
one stopped.  Two such generations are run side by side, and what is left to deliver stays the same
for both.

* `KeyPair.generateWithin_congr`: two feeds that deliver the same octets give the same pair.
* `Entropy.collect_delivered`: collecting, and all that is made from it.
-/

namespace CurveKeys

open Entropy

namespace KeyPair

variable {a b a' : Feed} {draw : Bytes} {left : Nat}

/-- The replies to each draw that is made fit, when at most `left` draws are made: a draw is made
after draws out of range only. -/
def DrawsFit (left : Nat) (feed : Feed) : Prop :=
  ∀ i < left, (∀ j < i, Dropped system feed j) →
    (system.after PrivateKey.size i feed).Fits PrivateKey.size

theorem DrawsFit.first (h : DrawsFit (left + 1) a) : a.Fits PrivateKey.size :=
  h 0 (Nat.succ_pos left) nofun

theorem DrawsFit.next (h : DrawsFit (left + 1) a)
    (hd : system.draw PrivateKey.size a = (.ok draw, a')) (hr : ¬ InRange draw) :
    DrawsFit left a' := by
  intro i hi hdrop
  have hfit := h (i + 1) (Nat.succ_lt_succ hi) (dropped_cons hd hr hdrop)
  rwa [Source.after, hd] at hfit

/-- **Two generations side by side**: as long as the same octets are still to be delivered, the same
is drawn and the same is reported. -/
theorem generateWithin_congr (h : delivered a.replies = delivered b.replies)
    (ha : DrawsFit left a) (hb : DrawsFit left b) (drawn : Nat) :
    (generateWithin system left drawn a).1 = (generateWithin system left drawn b).1 := by
  -- A dropped draw takes the same octets off both feeds.
  induction left generalizing drawn a b with
  | zero => rfl
  | succ left ih =>
      have hab : (system.draw PrivateKey.size a).1 = (system.draw PrivateKey.size b).1 :=
        fst_bytes_congr h PrivateKey.size
      rcases hda : system.draw PrivateKey.size a with ⟨ra, a'⟩
      rcases hdb : system.draw PrivateKey.size b with ⟨rb, b'⟩
      rw [hda, hdb] at hab
      dsimp only at hab
      subst hab
      rcases ra with e | draw
      · rw [generateWithin_failed hda, generateWithin_failed hdb]
      by_cases hr : InRange draw
      · obtain ⟨k, hk, hkm, hkv, hkc⟩ := generateWithin_inRange left drawn hda hr
        obtain ⟨l, hl, hlm, hlv, hlc⟩ := generateWithin_inRange left drawn hdb hr
        rw [hk, hl, hkm.ext hlm (hkv.trans hlv.symm) (hkc.trans hlc.symm)]
      · rw [generateWithin_dropped hda hr, generateWithin_dropped hdb hr]
        refine ih ?_ (ha.next hda hr) (hb.next hdb hr) (drawn + 1)
        have hda' := delivered_bytes hda ha.first
        have hdb' := delivered_bytes hdb hb.first
        rw [h, hdb'] at hda'
        exact (List.append_cancel_left hda').symm

end KeyPair

namespace Entropy

/-- **Collecting does not depend on how the system splits its answers.**  It ends for every feed, it
fills a buffer exactly when enough is delivered before the first failure, and it asks each time for
what is still missing (`Collects`).  Feeds that deliver the same octets give the same draws and the
same words, and the same pair if no reply to a draw is longer than its request. -/
theorem collect_delivered :
    (∀ buffer feed, Collects buffer feed (collect buffer feed)) ∧
    (∀ feed, collect [] feed = ⟨true, [], [], feed⟩) ∧
    ∀ a b : Feed, delivered a.replies = delivered b.replies →
      (∀ need, (bytes need a).1 = (bytes need b).1) ∧
      (word a).1 = (word b).1 ∧
      (KeyPair.DrawsFit 64 a → KeyPair.DrawsFit 64 b →
        (KeyPair.generate system a).1 = (KeyPair.generate system b).1) :=
  ⟨collect_collects, collect_nil, fun _ _ h => ⟨fst_bytes_congr h, fst_word_congr h,
    fun ha hb => KeyPair.generateWithin_congr h ha hb 0⟩⟩

/-- The number 2 in 32 octets, with an interruption and in three portions, one of them empty. -/
def inPortions : Feed :=
  ⟨[.interrupted, .delivered (List.replicate 31 0), .delivered [], .delivered [2], .failed], 0⟩

/-- The same octets at once. -/
def atOnce : Feed := ⟨[.delivered (List.replicate 31 0 ++ [2])], 0⟩

/-- A buffer of 34 octets is not filled, and the pair of the number is generated from both feeds. -/
theorem collect_delivered_inPortions :
    (collect (List.replicate 34 7) inPortions).complete = false ∧
      (collect (List.replicate 34 7) inPortions).buffer = List.replicate 31 0 ++ [2, 7, 7] ∧
      (word inPortions).1 = (word atOnce).1 ∧
      (KeyPair.generate system inPortions).1 = (KeyPair.generate system atOnce).1 ∧
      ∃ k, (KeyPair.generate system inPortions).1.result = .ok k ∧
        k.privateKey.scalar.value = 2 := by
  obtain ⟨hcollect, -, hcongr⟩ := collect_delivered
  have h := hcollect (List.replicate 34 7) inPortions
  have hc : (collect (List.replicate 34 7) inPortions).complete = false :=
    Bool.eq_false_iff.mpr (mt h.complete_iff.mp (by decide))
  have hr : KeyPair.InRange (List.replicate 31 0 ++ [2]) := ⟨by decide, by decide⟩
  -- The first draw is in range, so that no other one is made.
  have hfit : ∀ feed : Feed, feed.Fits PrivateKey.size →
      (system.nthDraw PrivateKey.size 0 feed = .ok (List.replicate 31 0 ++ [2])) →
      KeyPair.DrawsFit 64 feed := by
    intro feed hf hd i _ hdrop
    cases i with
    | zero => exact hf
    | succ i =>
        exact absurd (hdrop 0 (Nat.succ_pos i)) (KeyPair.not_dropped_of_inRange hd hr)
  obtain ⟨-, hw, hg⟩ := hcongr inPortions atOnce rfl
  have hd : system.nthDraw PrivateKey.size 0 inPortions = .ok (List.replicate 31 0 ++ [2]) := rfl
  obtain ⟨k, hk, -, hv, -⟩ := KeyPair.generate_accepted (n := 0) (by decide) nofun hd hr
  refine ⟨hc, h.untouched hc, hw, hg (hfit _ ?_ hd) (hfit _ ?_ rfl), k, hk, hv⟩
  · unfold Feed.Fits Fit
    decide
  · unfold Feed.Fits Fit
    decide

end Entropy

end CurveKeys
