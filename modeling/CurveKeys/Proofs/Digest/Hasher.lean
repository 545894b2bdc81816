import CurveKeys.Digest.Hasher
import CurveKeys.Digest.Value
import CurveKeys.Proofs.Digest.Progress
import Mathlib.Data.List.DropRight

/-!
# Digest — hashers give the digests of messages

A hasher that is reset after each digest gives the digest of what was written since it was new or
last reset, however that was cut into parts, whether it was lent meanwhile, and whatever a digest
leaves behind in it.

* `Hasher.written`: the octets written since the last reset.
* `Hasher.ResetsAfterDigests`: the steps keep to the rule for digests.
* `Hasher.Stands`: what holds between steps; `Stands.next` keeps it and `Stands.digest` reads the
  digest off it.
* `Hasher.digests_follow`: both hashes, and any steps that keep to the rule.
-/

namespace CurveKeys.Hasher

/-- The octets that a step writes. -/
def Step.data : Step → Bytes
  | .write data => data
  | _           => []

/-- The octets that were written since the last reset. -/
def written (steps : List Step) : Bytes := (steps.rtakeWhile (· ≠ .reset)).flatMap Step.data

/-- The first of the steps that is no lending, if there is any, is a reset. -/
def NextResets : List Step → Prop
  | []                           => True
  | .lend :: steps               => NextResets steps
  | .reset :: _                  => True
  | .write _ :: _ | .finish :: _ => False

/-- Before a hasher is used again after a digest it is reset. -/
def ResetsAfterDigests : List Step → Prop
  | []            => True
  | step :: steps => (step = .finish → NextResets steps) ∧ ResetsAfterDigests steps

instance NextResets.decide : DecidablePred NextResets
  | []                           => inferInstanceAs (Decidable True)
  | .lend :: steps               => NextResets.decide steps
  | .reset :: _                  => inferInstanceAs (Decidable True)
  | .write _ :: _ | .finish :: _ => inferInstanceAs (Decidable False)

instance ResetsAfterDigests.decide : DecidablePred ResetsAfterDigests
  | []            => inferInstanceAs (Decidable True)
  | step :: steps =>
    haveI := ResetsAfterDigests.decide steps
    inferInstanceAs (Decidable ((step = .finish → NextResets steps) ∧ ResetsAfterDigests steps))

variable {σ : Type} {H : BlockHash σ} {before ahead : List Step} {step : Step} {h : Hasher σ}

theorem written_concat_reset (before : List Step) : written (before ++ [.reset]) = [] := by
  rw [written, List.rtakeWhile_concat, if_neg (by decide)]
  rfl

theorem written_concat (before : List Step) {step : Step} (hs : step ≠ .reset) :
    written (before ++ [step]) = written before ++ step.data := by
  rw [written, List.rtakeWhile_concat, if_pos (decide_eq_true hs), List.flatMap_append,
    List.flatMap_singleton]
  rfl

/-! ### From step to step -/

/-- Where a hasher stands between the steps before and those ahead: it holds what was written since
the last reset, or, after a digest, anything, and is about to be reset. -/
inductive Stands (H : BlockHash σ) (before ahead : List Step) (h : Hasher σ) : Prop where
  | ready : h.held = some (H.write H.start (written before)) → Stands H before ahead h
  | spent (p : BlockHash.Progress σ) : h.held = some p → NextResets ahead → Stands H before ahead h

theorem stands_new (H : BlockHash σ) (ahead : List Step) : Stands H [] ahead (new H) :=
  .ready (congrArg some (H.write_nil H.start).symm)

/-- **A step** leads to where the next one is taken from. -/
theorem Stands.next (left : BlockHash.Progress σ → BlockHash.Progress σ)
    (hs : Stands H before (step :: ahead) h) (hr : ResetsAfterDigests (step :: ahead)) :
    Stands H (before ++ [step]) ahead (take H left step h).1 := by
  cases step with
  | write data =>
      have hw : written (before ++ [.write data]) = written before ++ data :=
        written_concat before fun e => by cases e
      cases hs with
      | ready hh =>
          refine .ready ?_
          rw [hw, ← H.write_write, take, hh]
          rfl
      | spent p _ hn => cases hn
  | reset =>
      obtain ⟨p, hp⟩ : ∃ p, h.held = some p := by
        cases hs with
        | ready hh => exact ⟨_, hh⟩
        | spent p hh _ => exact ⟨p, hh⟩
      refine .ready ?_
      rw [written_concat_reset, H.write_nil, take, hp]
      rfl
  | lend =>
      have hw : written (before ++ [.lend]) = written before :=
        (written_concat before fun e => by cases e).trans (List.append_nil _)
      cases hs with
      | ready hh => exact .ready (hw ▸ hh)
      | spent p hh hn => exact .spent p hh hn
  | finish =>
      cases hs with
      | ready hh => exact .spent _ (congrArg (Option.map left) hh) (hr.1 rfl)
      | spent p _ hn => cases hn

/-- The digest is that of what was written since the last reset. -/
theorem Stands.digest (left : BlockHash.Progress σ → BlockHash.Progress σ)
    (hs : Stands H before (.finish :: ahead) h) :
    (take H left .finish h).2 = some (H.digest (written before)) := by
  cases hs with
  | ready hh =>
      rw [take, hh, ← H.finish_write_start]
      rfl
  | spent p _ hn => cases hn

/-- **A run** from anywhere: each digest is that of what was written since the last reset. -/
theorem Stands.run (left : BlockHash.Progress σ → BlockHash.Progress σ) {front after : List Step}
    (hs : Stands H before (front ++ .finish :: after) h)
    (hr : ResetsAfterDigests (front ++ .finish :: after)) :
    (Hasher.run H left (front ++ .finish :: after) h)[front.length]? =
      some (some (H.digest (written (before ++ front)))) := by
  induction front generalizing before h with
  | nil =>
      rw [List.append_nil]
      exact congrArg some (hs.digest left)
  | cons step front ih =>
      have hn := ih (hs.next left hr) hr.2
      rwa [List.append_assoc] at hn

/-! ### Both hashes -/

/-- **Writing in parts**: whenever a digest is asked for, it is the digest of all that was written
since the hasher was new or last reset. -/
theorem digests_follow
    (left₁ : BlockHash.Progress Sha256.State → BlockHash.Progress Sha256.State)
    (left₂ : BlockHash.Progress Ripemd160.State → BlockHash.Progress Ripemd160.State)
    (steps : List Step) (hr : ResetsAfterDigests steps)
    (front after : List Step) (hs : steps = front ++ .finish :: after) :
    (run Sha256.hash left₁ steps (new Sha256.hash))[front.length]? =
        some (some (sha256 (written front)).octets) ∧
      (run Ripemd160.hash left₂ steps (new Ripemd160.hash))[front.length]? =
        some (some (ripemd160 (written front)).octets) := by
  subst hs
  exact ⟨(stands_new _ _).run left₁ hr, (stands_new _ _).run left₂ hr⟩

/-- A message in three parts, one of them empty, with octets from before a reset and a digest that
are not to come in. -/
def someSteps : List Step :=
  [.write [0x78], .reset, .write (List.replicate 55 0x61), .write [], .lend,
    .write (List.replicate 75 0x62), .finish, .lend, .reset, .write [0x63], .finish]

theorem digests_follow_someSteps :
    (run Sha256.hash id someSteps (new Sha256.hash))[6]? =
        some (some (sha256 (List.replicate 55 0x61 ++ List.replicate 75 0x62)).octets) ∧
      (run Ripemd160.hash (fun _ => Ripemd160.hash.start) someSteps (new Ripemd160.hash))[10]? =
        some (some (ripemd160 [0x63]).octets) := by
  have hr : ResetsAfterDigests someSteps := by decide
  exact ⟨(digests_follow id id someSteps hr (someSteps.take 6) (someSteps.drop 7) rfl).1,
    (digests_follow id _ someSteps hr (someSteps.take 10) [] rfl).2⟩

end CurveKeys.Hasher
