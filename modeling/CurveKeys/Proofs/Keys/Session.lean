import CurveKeys.Proofs.Keys.Derivation

/-!
# Keys — sessions on a public key

A session changes the form of a public key and reads its encoding again, in any order.  In the
compressed form the second coordinate is not written, so reading it again finds it by a square root;
it is the same one because the key lies on the curve, and that is what every step preserves.

* `Session.Step.take_eq`: what one step does to a key on the curve.
* `Session.run_eq`: what a session does; only the form that was asked for last matters.
* `Session.run_outcome`: sessions from the keys that are read or derived.
-/

namespace CurveKeys

namespace PublicKey

variable {k : PublicKey}

/-- A key that was read or derived. -/
inductive Obtained : PublicKey → Prop where
  | decoded {k : PublicKey} {b : Bytes} : (decode b).result = .ok k → Obtained k
  | derived {k : PublicKey} {d : Scalar} : (derive d).result = .ok k → Obtained k

theorem Obtained.onCurve (h : k.Obtained) : k.OnCurve := by
  cases h with
  | decoded h =>
      rw [result_decode] at h
      exact (parse_eq_ok_iff.mp h).2
  | derived h => exact (isSum_of_derive h).onCurve

/-- The encoding of a key on the curve is read as the key, and nothing is reported. -/
theorem OnCurve.decode_encode (h : k.OnCurve) : decode k.encode = pure k := by
  rw [decode, parse_eq_ok_iff.mpr ⟨rfl, h⟩]

end PublicKey

namespace Session

open PublicKey

/-! ### Steps -/

/-- What is done with a key: its form is changed, or its encoding is read again. -/
inductive Step where
  | withCompression (compressed : Bool)
  | compress
  | decompress
  | reread

namespace Step

/-- The form that a step asks for. -/
def form? : Step → Option Bool
  | withCompression c => some c
  | compress          => some true
  | decompress        => some false
  | reread            => none

/-- Takes a step from a key. -/
def take : Step → PublicKey → Traced KeyError PublicKey
  | withCompression c, k => pure (k.withCompression c)
  | compress,          k => pure (k.withCompression true)
  | decompress,        k => pure (k.withCompression false)
  | reread,            k => decode k.encode

/-- **One step** changes the form to the one it asks for, and nothing else. -/
theorem take_eq {k : PublicKey} (h : k.OnCurve) (step : Step) :
    step.take k = pure (k.withCompression (step.form?.getD k.compressed)) := by
  cases step with
  | withCompression | compress | decompress => rfl
  | reread => exact h.decode_encode

end Step

/-! ### Sessions -/

/-- Takes steps one after the other, up to the first that fails. -/
def run : List Step → PublicKey → Traced KeyError PublicKey
  | [],            k => pure k
  | step :: steps, k => do run steps (← step.take k)

/-- The form that was asked for last, `c` if none was. -/
def lastForm (steps : List Step) (c : Bool) : Bool :=
  (steps.filterMap Step.form?).getLast?.getD c

theorem lastForm_cons (step : Step) (steps : List Step) (c : Bool) :
    lastForm (step :: steps) c = lastForm steps (step.form?.getD c) := by
  rw [lastForm, lastForm, List.filterMap_cons]
  cases step.form? with
  | none => rfl
  | some c' => rw [List.getLast?_cons, Option.getD_some, Option.getD_some]

/-- **A session** changes the form to the one that was asked for last, and nothing else. -/
theorem run_eq {k : PublicKey} (h : k.OnCurve) (steps : List Step) :
    run steps k = pure (k.withCompression (lastForm steps k.compressed)) := by
  induction steps generalizing k with
  | nil => rfl
  | cons step steps ih =>
      rw [run, step.take_eq h, Traced.pure_bind, ih (h.withCompression _), lastForm_cons]
      rfl

/-- **Sessions never lose the point.**  From a key that was read or derived no session fails; the
coordinates stay, the form is the one that was asked for last, and the encoding is the one that is
read as the key.  So the octets come back with the form, and the keys that any two sessions end at
are told apart by their encodings. -/
theorem run_outcome {k : PublicKey} (hk : k.Obtained) (steps : List Step) :
    ∃ l, run steps k = pure l ∧ l.x = k.x ∧ l.y = k.y ∧
      l.compressed = lastForm steps k.compressed ∧
      (∀ b, (decode b).result = .ok l ↔ b = l.encode) ∧
      (l.compressed = k.compressed → l.encode = k.encode) ∧
      ∀ (k' : PublicKey) (steps' : List Step) (l' : PublicKey), k'.Obtained →
        (run steps' k').result = .ok l' → (l = l' ↔ l.encode = l'.encode) := by
  have hl : (k.withCompression (lastForm steps k.compressed)).OnCurve :=
    hk.onCurve.withCompression _
  refine ⟨_, run_eq hk.onCurve steps, rfl, rfl, rfl, fun b => ?_, fun hc => ?_, ?_⟩
  · rw [result_decode, parse_eq_ok_iff]
    exact and_iff_left hl
  · exact congrArg (fun c => (k.withCompression c).encode) hc
  · intro k' steps' l' hk' h'
    rw [run_eq hk'.onCurve] at h'
    cases h'
    exact (hl.encode_inj_iff (hk'.onCurve.withCompression _)).symm

theorem run_outcome_compress_reread :
    ∃ k l, (derive (.ofNat 1)).result = .ok k ∧
      run [.compress, .reread, .decompress, .reread] k = pure l ∧ l.encode = k.encode := by
  have h₁ : ¬ Curve.order ∣ (Scalar.ofNat 1).value := by
    rw [Scalar.value_ofNat]
    decide
  have hw : (Scalar.ofNat 1).byteLength ≤ Scalar.maxDivided :=
    Scalar.byteLength_ofNat_le (by decide)
  obtain ⟨k, hk, -, hc⟩ := exists_derive hw h₁
  obtain ⟨l, hl, -, -, hf, -, hback, -⟩ :=
    run_outcome (.derived hk) [.compress, .reread, .decompress, .reread]
  exact ⟨k, l, hk, hl, hback (hf.trans hc.symm)⟩

end Session

end CurveKeys
