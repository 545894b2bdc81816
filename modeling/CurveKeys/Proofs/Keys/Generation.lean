import CurveKeys.Proofs.Keys.Derivation

/-!
# Keys — generation

A pair is generated from the first draw whose number is in the range of private keys, and that
number becomes the private key as it is.  The draws of a source are numbered, so that what became
of each of them can be said without the states in between.

* `KeyPair.generateWithin_dropped`, `KeyPair.generateWithin_inRange`: what one draw does.
* `KeyPair.Sampled`: how the draws can end, when at most so many are made.
* `KeyPair.generateWithin_sampled`, `KeyPair.generate_sampled`: they end in this way.
* `KeyPair.generate_accepted`: the first draw in the range gives the pair of its number.
* `KeyPair.generate_starved_iff`: when no pair is generated; the keys are never to blame.
-/

namespace CurveKeys

open Curve

namespace Entropy.Source

variable {σ : Type}

/-- The draw of `size` octets that is made after `n` others. -/
def nthDraw (source : Source σ) (size : Nat) : Nat → σ → Except Error Bytes
  | 0,     s => (source.draw size s).1
  | n + 1, s => nthDraw source size n (source.draw size s).2

/-- The state after `n` draws of `size` octets. -/
def after (source : Source σ) (size : Nat) : Nat → σ → σ
  | 0,     s => s
  | n + 1, s => after source size n (source.draw size s).2

theorem draw_after (source : Source σ) (size n : Nat) (s : σ) :
    source.draw size (source.after size n s) =
      (source.nthDraw size n s, source.after size (n + 1) s) := by
  induction n generalizing s with
  | zero => rfl
  | succ n ih => exact ih _

end Entropy.Source

namespace KeyPair

/-! ### Candidates -/

/-- A candidate is the number of the draw, in the range of private keys. -/
theorem candidate?_eq_some_iff {draw : Bytes} {d : Scalar} :
    candidate? draw = some d ↔
      d = Scalar.ofBytes draw ∧ BigEndian.value draw ≠ 0 ∧ BigEndian.value draw < order := by
  have hz : (Scalar.ofBytes draw).isZero = false ↔ BigEndian.value draw ≠ 0 := by
    rw [Bool.eq_false_iff, ne_eq, Scalar.isZero_iff, Scalar.value_ofBytes]
  have hb : Scalar.ofBytes draw < orderScalar ↔ BigEndian.value draw < order := by
    rw [lt_orderScalar_iff, Scalar.value_ofBytes]
  rw [candidate?]
  split_ifs with h
  · rw [hz, hb] at h
    exact ⟨fun e => ⟨(Option.some.inj e).symm, h⟩, fun e => congrArg some e.1.symm⟩
  · rw [hz, hb] at h
    exact ⟨nofun, fun e => absurd e.2 h⟩

/-- **The pair of a candidate**; nothing is reported. -/
theorem ofCandidate_eq {d : Scalar} (h₀ : d.value ≠ 0) (h : d.value < order) :
    ∃ k, ofCandidate d = pure k ∧ k.Matched ∧ k.privateKey.scalar = d ∧ k.isCompressed = true := by
  obtain ⟨p, hp, hpd⟩ := PrivateKey.ofScalar_accepted (Policy.refusal?_lenient h₀) h
  obtain ⟨q, hq, hqm, -⟩ := PublicKey.derive_eq p.value_ne_zero p.value_lt_order
  refine ⟨⟨p, q.withCompression true⟩, ?_, hqm.withCompression true, hpd, rfl⟩
  rw [ofCandidate, hp, Traced.pure_bind, hq, Traced.pure_bind]

/-- The octets denote a number in the range of private keys. -/
def InRange (draw : Bytes) : Prop := BigEndian.value draw ≠ 0 ∧ BigEndian.value draw < order

theorem candidate?_eq_none_iff {draw : Bytes} : candidate? draw = none ↔ ¬ InRange draw := by
  rw [Option.eq_none_iff_forall_ne_some]
  simp only [ne_eq, candidate?_eq_some_iff]
  exact ⟨fun h hr => h _ ⟨rfl, hr⟩, fun h d hd => h hd.2⟩

/-! ### Sampling -/

variable {σ : Type}

/-- The draw `n` was made, and its number is out of range. -/
def Dropped (source : Entropy.Source σ) (s : σ) (n : Nat) : Prop :=
  ∃ draw, source.nthDraw PrivateKey.size n s = .ok draw ∧ ¬ InRange draw

/-- How the draws of a source end, when at most `left` of them are made: all are out of range, or
after some that are the next one fails, or the next one is in range and gives its pair. -/
inductive Sampled (source : Entropy.Source σ) (s : σ) (left : Nat) :
    Except GenerateError KeyPair → Prop where
  | exhausted : (∀ i < left, Dropped source s i) → Sampled source s left (.error .exhausted)
  | failed {n : Nat} {e : Entropy.Error} : n < left → (∀ i < n, Dropped source s i) →
      source.nthDraw PrivateKey.size n s = .error e →
      Sampled source s left (.error (.noEntropy e))
  | accepted {n : Nat} {draw : Bytes} {k : KeyPair} : n < left → (∀ i < n, Dropped source s i) →
      source.nthDraw PrivateKey.size n s = .ok draw → InRange draw →
      k.Matched → k.privateKey.scalar.value = BigEndian.value draw → k.isCompressed = true →
      Sampled source s left (.ok k)

variable {source : Entropy.Source σ} {s s' : σ} {draw : Bytes} {left drawn n : Nat}

/-- A dropped draw in front of others that were dropped. -/
theorem dropped_cons (hd : source.draw PrivateKey.size s = (.ok draw, s')) (hr : ¬ InRange draw)
    (h : ∀ i < n, Dropped source s' i) : ∀ i < n + 1, Dropped source s i := by
  intro i hi
  cases i with
  | zero => exact ⟨draw, by rw [Entropy.Source.nthDraw, hd], hr⟩
  | succ i =>
      rw [Dropped, Entropy.Source.nthDraw, hd]
      exact h i (Nat.lt_of_succ_lt_succ hi)

/-- After a dropped draw the draws end as those from the next state do. -/
theorem Sampled.cons {outcome : Except GenerateError KeyPair}
    (hd : source.draw PrivateKey.size s = (.ok draw, s')) (hr : ¬ InRange draw)
    (h : Sampled source s' left outcome) : Sampled source s (left + 1) outcome := by
  have next : ∀ n, source.nthDraw PrivateKey.size (n + 1) s =
      source.nthDraw PrivateKey.size n s' := fun n => by rw [Entropy.Source.nthDraw, hd]
  cases h with
  | exhausted h => exact .exhausted (dropped_cons hd hr h)
  | failed hn h he => exact .failed (Nat.succ_lt_succ hn) (dropped_cons hd hr h) (next _ ▸ he)
  | accepted hn h he hin hm hv hc =>
      exact .accepted (Nat.succ_lt_succ hn) (dropped_cons hd hr h) (next _ ▸ he) hin hm hv hc

/-! ### One draw -/

theorem generateWithin_failed {e : Entropy.Error}
    (hd : source.draw PrivateKey.size s = (.error e, s')) :
    generateWithin source (left + 1) drawn s = (.ofExcept (.error (.noEntropy e)), s') := by
  rw [generateWithin, hd]

/-- After a draw out of range it is as if that draw had not been made, but for its number. -/
theorem generateWithin_dropped (hd : source.draw PrivateKey.size s = (.ok draw, s'))
    (hr : ¬ InRange draw) :
    generateWithin source (left + 1) drawn s = generateWithin source left (drawn + 1) s' := by
  rw [generateWithin, hd]
  simp only [candidate?_eq_none_iff.mpr hr]

/-- A draw in range is the last one. -/
theorem generateWithin_inRange (left drawn : Nat)
    (hd : source.draw PrivateKey.size s = (.ok draw, s')) (hr : InRange draw) :
    ∃ k, generateWithin source (left + 1) drawn s =
        (⟨.ok k, [generatedNote (drawn + 1)]⟩, s') ∧
      k.Matched ∧ k.privateKey.scalar.value = BigEndian.value draw ∧ k.isCompressed = true := by
  have hc : candidate? draw = some (Scalar.ofBytes draw) := candidate?_eq_some_iff.mpr ⟨rfl, hr⟩
  obtain ⟨h₀, hlt⟩ := hr
  rw [← Scalar.value_ofBytes] at h₀ hlt
  obtain ⟨k, hk, hm, hv, hcomp⟩ := ofCandidate_eq h₀ hlt
  refine ⟨k, ?_, hm, hv ▸ Scalar.value_ofBytes draw, hcomp⟩
  rw [generateWithin, hd]
  simp only [hc, hk]
  rfl

/-- **The draws that are made** end as sampling does. -/
theorem generateWithin_sampled (source : Entropy.Source σ) (left drawn : Nat) (s : σ) :
    Sampled source s left (generateWithin source left drawn s).1.result := by
  -- One more draw is one step of sampling; the number of draws so far is for the report only.
  induction left generalizing drawn s with
  | zero => exact .exhausted nofun
  | succ left ih =>
      rcases hd : source.draw PrivateKey.size s with ⟨e | draw, s'⟩
      · rw [generateWithin_failed hd]
        exact .failed (Nat.succ_pos left) nofun (congrArg Prod.fst hd)
      by_cases hr : InRange draw
      · obtain ⟨k, hk, hm, hv, hc⟩ := generateWithin_inRange left drawn hd hr
        rw [hk]
        exact .accepted (Nat.succ_pos left) nofun (congrArg Prod.fst hd) hr hm hv hc
      · rw [generateWithin_dropped hd hr]
        exact (ih (drawn + 1) s').cons hd hr

theorem generate_sampled (source : Entropy.Source σ) (s : σ) :
    Sampled source s maxDraws (generate source s).1.result :=
  generateWithin_sampled source maxDraws 0 s

/-! ### The draw that decides -/

/-- The first draw that was not dropped has one place. -/
theorem place_unique {m n : Nat} (hm : ∀ i < m, Dropped source s i) (hm' : ¬ Dropped source s m)
    (hn : ∀ i < n, Dropped source s i) (hn' : ¬ Dropped source s n) : m = n := by
  rcases Nat.lt_trichotomy m n with h | h | h
  · exact absurd (hn m h) hm'
  · exact h
  · exact absurd (hm n h) hn'

theorem not_dropped_of_error {e : Entropy.Error}
    (h : source.nthDraw PrivateKey.size n s = .error e) : ¬ Dropped source s n := by
  rintro ⟨draw, hd, -⟩
  rw [h] at hd
  cases hd

theorem not_dropped_of_inRange (h : source.nthDraw PrivateKey.size n s = .ok draw)
    (hr : InRange draw) : ¬ Dropped source s n := by
  rintro ⟨draw', hd, hr'⟩
  rw [h] at hd
  cases hd
  exact hr' hr

/-- **The first draw in range** gives the pair of its number, in compressed form. -/
theorem generate_accepted (hn : n < maxDraws) (h : ∀ i < n, Dropped source s i)
    (hd : source.nthDraw PrivateKey.size n s = .ok draw) (hr : InRange draw) :
    ∃ k, (generate source s).1.result = .ok k ∧ k.Matched ∧
      k.privateKey.scalar.value = BigEndian.value draw ∧ k.isCompressed = true := by
  have hn' := not_dropped_of_inRange hd hr
  have hs := generate_sampled source s
  generalize (generate source s).1.result = outcome at hs
  cases hs with
  | exhausted h' => exact absurd (h' n hn) hn'
  | failed _ h' he =>
      obtain rfl := place_unique h hn' h' (not_dropped_of_error he)
      rw [hd] at he
      cases he
  | accepted _ h' hd' hr' hm hv hc =>
      obtain rfl := place_unique h hn' h' (not_dropped_of_inRange hd' hr')
      rw [hd] at hd'
      cases hd'
      exact ⟨_, rfl, hm, hv, hc⟩

/-- No draw gives a key: all that may be made are out of range, or one fails before. -/
def Starved (source : Entropy.Source σ) (s : σ) : Prop :=
  (∀ i < maxDraws, Dropped source s i) ∨
    ∃ n < maxDraws, (∀ i < n, Dropped source s i) ∧
      ∃ e, source.nthDraw PrivateKey.size n s = .error e

/-- **No pair is generated** when no draw gives a key, and only then. -/
theorem generate_starved_iff :
    (∃ e, (generate source s).1.result = .error e) ↔ Starved source s := by
  have hs := generate_sampled source s
  generalize (generate source s).1.result = outcome at hs
  cases hs with
  | exhausted h => exact iff_of_true ⟨_, rfl⟩ (.inl h)
  | failed hn h he => exact iff_of_true ⟨_, rfl⟩ (.inr ⟨_, hn, h, _, he⟩)
  | accepted hn h hd hr =>
      have hn' := not_dropped_of_inRange hd hr
      refine iff_of_false nofun ?_
      rintro (h' | ⟨m, -, h', e, he⟩)
      · exact hn' (h' _ hn)
      · obtain rfl := place_unique h hn' h' (not_dropped_of_error he)
        rw [hd] at he
        cases he

/-- The keys of a draw are never refused. -/
theorem generate_ne_refused (cause : KeyError) :
    (generate source s).1.result ≠ .error (.refused cause) := by
  intro h
  have hs := generate_sampled source s
  rw [h] at hs
  cases hs

end KeyPair

end CurveKeys
