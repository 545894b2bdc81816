import CurveKeys.Proofs.Tool.Lines
import CurveKeys.Proofs.Tool.Run

/-!
# Tool — the scalar 1 under the strict policy

Under the strict policy the commands that read a private key refuse the scalar 1.  Generating does
not look at the policy: a draw of 1 gives the pair of 1, and this is the only way in which that pair
is ever printed.

* `answer_shows_ne_one`: what the commands print that take an argument.
* `shows_one_iff`: when the pair of 1 is printed.
-/

namespace CurveKeys.Tool

variable {σ : Type} {w : Surroundings σ} {arguments rest : List Bytes} {s : Settings} {c : Command}
  {k : KeyPair} {kind : ArgumentKind} {answer : Bytes → Except KeyError Bytes} {b text : Bytes}
  {compressed : Bool} {policy : Policy}

/-- The digits of a public key are not those of a record. -/
theorem not_shows_publicKey (p : PublicKey) : ¬ Shows (row "" p.toHex) k :=
  fun h => k.toRecord_ne_encode p (shows_digits_iff.mp h)

/-- Nor are those of a digest. -/
theorem not_shows_digest (d : Digest 20) : ¬ Shows (row "" d.toHex) k := fun h =>
  k.length_toRecord_ne ((congrArg List.length (shows_digits_iff.mp h)).symm.trans d.length_eq)

/-- **A command that takes an argument** prints no pair of 1 under the strict policy. -/
theorem answer_shows_ne_one (hp : policy.rejectOne = true)
    (hc : c.answer? compressed policy = some (kind, answer)) (ha : answer b = .ok text)
    (hs : Shows text k) : k.privateKey.scalar.value ≠ 1 := by
  cases c with
  | generate | help => cases hc
  | derive =>
      cases hc
      obtain ⟨l, hl, rfl⟩ := map_eq_ok_iff.mp ha
      rw [shows_pairText_iff.mp hs]
      exact (KeyPair.Sound.of_ofScalar hl).ne_one hp
  | importRecord =>
      cases hc
      obtain ⟨l, hl, rfl⟩ := map_eq_ok_iff.mp ha
      obtain ⟨_, -, -, hsound⟩ := KeyPair.Sound.of_ofRecord hl
      rw [shows_pairText_iff.mp hs]
      exact hsound.ne_one hp
  | exportRecord =>
      cases hc
      obtain ⟨l, hl, rfl⟩ := map_eq_ok_iff.mp ha
      rw [← KeyPair.scalar_eq_of_toRecord (shows_digits_iff.mp hs)]
      exact (KeyPair.Sound.of_ofScalar hl).ne_one hp
  | hash160 =>
      cases hc
      obtain ⟨p, -, rfl⟩ := map_eq_ok_iff.mp ha
      exact absurd hs (not_shows_digest _)
  | compress | decompress =>
      cases hc
      obtain ⟨p, -, rfl⟩ := map_eq_ok_iff.mp ha
      exact absurd hs (not_shows_publicKey _)

/-- What generating prints shows the pairs with the private key that was drawn. -/
theorem given_generated_shows {g : KeyPair} (s : Settings) (rest : List Bytes)
    (h : (KeyPair.generate w.entropy w.supply).1.result = .ok g) :
    ∃ text, given w s .generate rest = .ok text ∧
      ∀ k, Shows text k ↔ k.privateKey.scalar = g.privateKey.scalar := by
  obtain ⟨l, hg, -, hl⟩ := given_generated s rest h
  refine ⟨_, hg, fun k => ?_⟩
  rw [generatedText_eq, shows_generatedLines_iff, hl]

/-- **The strict policy.**  When the options ask for it, a pair with the scalar 1, or its record, is
printed exactly where the command is to generate a pair and the first draw in range is 1. -/
theorem shows_one_iff (hs : Accepted w arguments s) (hp : s.policy.rejectOne = true) :
    (∃ k, k.privateKey.scalar.value = 1 ∧ Shows (run arguments w).stdout k) ↔
      ∃ rest g, Asks w arguments s .generate rest ∧
        (KeyPair.generate w.entropy w.supply).1.result = .ok g ∧
        g.privateKey.scalar.value = 1 := by
  constructor
  · rintro ⟨k, h₁, hk⟩
    have hr := run_ended w arguments
    generalize (run arguments w).exit = x, (run arguments w).stdout = text at hk hr
    cases hr with
    | rejected | unknown | failed => exact absurd hk not_shows_nil
    | version => exact absurd hk not_shows_versionText
    | help | nothing => exact absurd hk not_shows_usageText
    | @printed s' c rest _ ha hg =>
        obtain rfl := hs.unique ha.accepted
        rcases hc : c.answer? (!s.switch "uncompressed" false) s.policy with _ | ⟨kind, answer⟩
        · rcases Command.answer?_eq_none hc with rfl | rfl
          · obtain ⟨g, hgen⟩ := exists_generated hg
            obtain ⟨_, hg', hshows⟩ := given_generated_shows s rest hgen
            cases hg.symm.trans hg'
            exact ⟨rest, g, ha, hgen, (hshows k).mp hk ▸ h₁⟩
          · cases hg
            exact absurd hk not_shows_usageText
        · obtain ⟨b, -, hb⟩ := (Command.result_run_eq_ok_iff hc).mp hg
          exact absurd h₁ (answer_shows_ne_one hp hc hb hk)
  · rintro ⟨rest, g, ha, hg, h₁⟩
    obtain ⟨text, ht, hshows⟩ := given_generated_shows s rest hg
    exact ⟨g, h₁, (ha.run_ok ht).2 ▸ (hshows g).mpr rfl⟩

theorem shows_one_drawing :
    ∃ s, Accepted (drawing 1) [Bytes.ascii "generate", Bytes.ascii "--strict"] s ∧
      s.policy.rejectOne = true ∧
      ∃ k, k.privateKey.scalar.value = 1 ∧
        Shows (run [Bytes.ascii "generate", Bytes.ascii "--strict"] (drawing 1)).stdout k := by
  have hi : Invocation [Bytes.ascii "generate"] (· == Flag.strict)
      [Bytes.ascii "generate", Bytes.ascii "--strict"] :=
    ⟨by decide, fun f => by cases f <;> decide⟩
  obtain ⟨s, ha, -, hpol⟩ := hi.asks (by decide) (c := .generate) (by decide) (drawing 1)
  have hp : s.policy.rejectOne = true := congrArg Policy.rejectOne hpol
  obtain ⟨g, hg, h₁⟩ := generate_drawing (n := 1) (by decide)
  exact ⟨s, ha.accepted, hp, (shows_one_iff ha.accepted hp).mpr ⟨[], g, ha, hg, h₁⟩⟩

end CurveKeys.Tool
