import CurveKeys.Proofs.Bytes.Hex
import CurveKeys.Proofs.Bytes.Text
import CurveKeys.Proofs.Keys.Invariant
import CurveKeys.Tool.Command

/-!
# Tool — what commands give

Six of the commands read one argument and hand its octets to the keys, and what the keys answer is
what the command gives; the keys are not to blame where the arithmetic fails.  Generating never
blames the keys, neither for the pair nor for the form that was asked for.

* `hexArgument_eq_ok_iff`, `hexArgument_eq_error_iff`: what comes of an argument.
* `Command.answer?`: what the keys answer to the octets of an argument.
* `TooWide`: the arguments at which the arithmetic fails.
* `Command.result_run`: a command that takes an argument gives this answer.
* `Command.result_run_generate`: what generating gives.
-/

namespace CurveKeys.Tool

open Curve

variable {σ : Type} {source : Entropy.Source σ} {s : σ} {kind : ArgumentKind} {b : Bytes}
  {arguments : List Bytes} {compressed : Bool} {policy : Policy}

/-- What is made of a result comes from one. -/
theorem map_eq_ok_iff {ε α β : Type} {x : Except ε α} {f : α → β} {t : β} :
    x.map f = .ok t ↔ ∃ a, x = .ok a ∧ f a = t := by
  cases x with
  | error e => exact ⟨nofun, fun ⟨_, h, _⟩ => nomatch h⟩
  | ok a =>
      refine ⟨fun h => ⟨a, rfl, Except.ok.inj h⟩, ?_⟩
      rintro ⟨_, h, rfl⟩
      cases h
      rfl

theorem mapError_eq_ok_iff {ε ε' α : Type} {x : Except ε α} {f : ε → ε'} {a : α} :
    x.mapError f = .ok a ↔ x = .ok a := by
  cases x with
  | error e => exact ⟨nofun, nofun⟩
  | ok a => exact ⟨fun h => congrArg _ (Except.ok.inj h), fun h => congrArg _ (Except.ok.inj h)⟩

theorem map_eq_error_iff {ε α β : Type} {x : Except ε α} {f : α → β} {e : ε} :
    x.map f = .error e ↔ x = .error e := by
  cases x with
  | error e' =>
      exact ⟨fun h => congrArg _ (Except.error.inj h), fun h => congrArg _ (Except.error.inj h)⟩
  | ok a => exact ⟨nofun, nofun⟩

/-- The keys are to blame for all failures but those of the arithmetic. -/
theorem ofKeyError_eq {cause : KeyError} (h : ∀ failure, cause ≠ .failed failure) :
    ofKeyError cause = .key cause := by
  cases cause with
  | failed failure => exact absurd rfl (h failure)
  | invalidKey | unsupportedEncoding | malformedRecord | keyMismatch => rfl

/-! ### Arguments -/

/-- The octets of the first argument are read, if there are any. -/
theorem hexArgument_eq_ok_iff :
    hexArgument kind arguments = .ok b ↔
      ∃ h rest, arguments = h :: rest ∧ Hex.decode h = .ok b ∧ b ≠ [] := by
  cases arguments with
  | nil => exact ⟨nofun, fun ⟨_, _, h, _⟩ => nomatch h⟩
  | cons h rest =>
      rw [hexArgument]
      by_cases hv : Hex.isValid h = true
      · obtain ⟨b', hb', hd⟩ := Hex.isValid_iff.mp hv
        rw [if_pos hv, hd]
        refine ⟨?_, ?_⟩
        · intro e
          cases e
          exact ⟨h, rest, rfl, hd, hb'⟩
        · rintro ⟨_, _, e, hd', -⟩
          cases e
          cases hd.symm.trans hd'
          rfl
      · rw [if_neg hv]
        refine ⟨nofun, ?_⟩
        rintro ⟨_, _, e, hd, hb⟩
        cases e
        exact absurd (Hex.isValid_iff.mpr ⟨b, hb, hd⟩) hv

/-- **An argument that passes the check is read**, so only a missing one or one that does not pass is
to blame. -/
theorem hexArgument_eq_error_iff {e : Failure} :
    hexArgument kind arguments = .error e ↔
      arguments = [] ∧ e = .missing kind ∨
        ∃ argument rest, arguments = argument :: rest ∧ Hex.isValid argument = false ∧
          e = .notHex kind argument := by
  cases arguments with
  | nil =>
      refine ⟨fun h => .inl ⟨rfl, (Except.error.inj h).symm⟩, ?_⟩
      rintro (⟨-, rfl⟩ | ⟨_, _, h, -⟩)
      · rfl
      · cases h
  | cons argument rest =>
      rw [hexArgument]
      by_cases hv : Hex.isValid argument = true
      · obtain ⟨b, -, hd⟩ := Hex.isValid_iff.mp hv
        rw [if_pos hv, hd]
        refine ⟨nofun, ?_⟩
        rintro (⟨h, -⟩ | ⟨_, _, h, hf, -⟩)
        · cases h
        · cases h
          cases hv.symm.trans hf
      · rw [if_neg hv]
        refine ⟨fun h => .inr ⟨argument, rest, rfl, Bool.eq_false_of_not_eq_true hv,
          (Except.error.inj h).symm⟩, ?_⟩
        rintro (⟨h, -⟩ | ⟨_, _, h, -, rfl⟩)
        · cases h
        · cases h
          rfl

/-! ### Commands that take an argument -/

namespace Command

/-- What an argument of a command is to be, and what the keys answer to its octets. -/
def answer? (compressed : Bool) (policy : Policy) :
    Command → Option (ArgumentKind × (Bytes → Except KeyError Bytes))
  | derive          => some (.privateKey, fun b =>
      (KeyPair.ofBytes b compressed policy).result.map pairText)
  | exportRecord    => some (.privateKey, fun b =>
      (KeyPair.ofBytes b compressed policy).result.map fun k => row "" (Hex.encode k.toRecord))
  | importRecord    => some (.record, fun b => (KeyPair.ofRecord b policy).result.map pairText)
  | Command.hash160 => some (.publicKey, fun b =>
      (PublicKey.decode b).result.map fun k => row "" k.digest.toHex)
  | compress        => some (.publicKey, fun b =>
      (PublicKey.decode b).result.map fun k => row "" (k.withCompression true).toHex)
  | decompress      => some (.publicKey, fun b =>
      (PublicKey.decode b).result.map fun k => row "" (k.withCompression false).toHex)
  | generate | help => none

/-- Two commands take no argument. -/
theorem answer?_eq_none {c : Command} (h : c.answer? compressed policy = none) :
    c = generate ∨ c = help := by
  cases c with
  | generate => exact .inl rfl
  | help => exact .inr rfl
  | derive | exportRecord | importRecord | hash160 | compress | decompress => cases h

/-- The argument is a private key of which the arithmetic is told more octets than it can divide. -/
inductive TooWide : Command → List Bytes → Prop where
  | mk {c : Command} {h : Bytes} {rest : List Bytes} {b : Bytes} :
      c = derive ∨ c = exportRecord → Hex.decode h = .ok b →
      Scalar.maxDivided < (Scalar.ofBytes b).toldLength → TooWide c (h :: rest)

/-- Only commands that take a private key ask the arithmetic for what it can fail at. -/
theorem wide_of_answer_failed {c : Command} {answer : Bytes → Except KeyError Bytes}
    {failure : QueuedFailure} (hc : c.answer? compressed policy = some (kind, answer))
    (h : answer b = .error (.failed failure)) :
    (c = derive ∨ c = exportRecord) ∧ Scalar.maxDivided < (Scalar.ofBytes b).toldLength := by
  cases c with
  | generate | help => cases hc
  | derive =>
      cases hc
      exact ⟨.inl rfl, KeyPair.ofScalar_failed_iff.mp ⟨failure, map_eq_error_iff.mp h⟩⟩
  | exportRecord =>
      cases hc
      exact ⟨.inr rfl, KeyPair.ofScalar_failed_iff.mp ⟨failure, map_eq_error_iff.mp h⟩⟩
  | importRecord =>
      cases hc
      exact absurd (map_eq_error_iff.mp h) (KeyPair.ofRecord_ne_failed failure)
  | hash160 | compress | decompress =>
      cases hc
      exact absurd (map_eq_error_iff.mp h) (PublicKey.decode_ne_failed failure)

variable {α : Type} {text : α → Bytes} {finish : α → Traced Failure Bytes}

/-- The text of what the keys give, or their failure. -/
theorem result_finish (keys : Traced KeyError α) (hf : ∀ a, (finish a).result = .ok (text a)) :
    (keys.mapError ofKeyError >>= finish).result = (keys.result.map text).mapError ofKeyError := by
  rw [Traced.result_bind, Traced.mapError]
  cases keys.result with
  | error e => rfl
  | ok a => exact hf a

/-- The same, after the octets were read. -/
theorem result_read (read : Except Failure Bytes) (keys : Bytes → Traced KeyError α)
    (hf : ∀ a, (finish a).result = .ok (text a)) :
    ((Traced.ofExcept read >>= fun b => (keys b).mapError ofKeyError) >>= finish).result =
      read.bind fun b => ((keys b).result.map text).mapError ofKeyError := by
  rw [Traced.result_bind, Traced.result_bind]
  cases read with
  | error e => rfl
  | ok b => exact (Traced.result_bind _ _).symm.trans (result_finish (keys b) hf)

/-- **A command that takes an argument** gives what the keys answer to its octets. -/
theorem result_run {c : Command} {answer : Bytes → Except KeyError Bytes}
    (h : c.answer? compressed policy = some (kind, answer)) :
    (c.run arguments compressed policy source s).result =
      (hexArgument kind arguments).bind fun b => (answer b).mapError ofKeyError := by
  cases c with
  | generate | help => cases h
  | derive | hash160 | compress | decompress =>
      cases h
      exact result_read _ _ fun _ => rfl
  | exportRecord =>
      cases h
      refine result_read _ _ fun k => ?_
      rw [KeyPair.writeRecord_eq]
      rfl
  | importRecord =>
      cases h
      rw [Command.run, Traced.result_bind]
      cases hexArgument .record arguments with
      | error e => rfl
      | ok b => exact result_finish _ fun _ => rfl

/-- The text of a command that takes an argument is the answer to its octets. -/
theorem result_run_eq_ok_iff {c : Command} {answer : Bytes → Except KeyError Bytes} {t : Bytes}
    (h : c.answer? compressed policy = some (kind, answer)) :
    (c.run arguments compressed policy source s).result = .ok t ↔
      ∃ b, hexArgument kind arguments = .ok b ∧ answer b = .ok t := by
  rw [result_run h]
  refine Record.bind_eq_ok_iff.trans (exists_congr fun b => and_congr_right' ?_)
  exact mapError_eq_ok_iff

/-- Such an argument is the program's fault. -/
theorem TooWide.result_run {c : Command} (h : TooWide c arguments) :
    ∃ failure : QueuedFailure, (c.run arguments compressed policy source s).result =
      .error (.internal failure.message) := by
  cases h with
  | @mk argument rest b hc hd hwide =>
      have hb : b ≠ [] := by
        rintro rfl
        exact absurd hwide (by decide)
      have ha : hexArgument .privateKey (argument :: rest) = .ok b :=
        hexArgument_eq_ok_iff.mpr ⟨_, _, rfl, hd, hb⟩
      obtain ⟨failure, hf⟩ : ∃ failure, (KeyPair.ofBytes b compressed policy).result =
          .error (.failed failure) := KeyPair.ofScalar_failed_iff.mpr hwide
      refine ⟨failure, ?_⟩
      rcases hc with rfl | rfl
      · rw [Command.result_run rfl, ha]
        exact congrArg (Except.mapError ofKeyError) (map_eq_error_iff.mpr hf)
      · rw [Command.result_run rfl, ha]
        exact congrArg (Except.mapError ofKeyError) (map_eq_error_iff.mpr hf)

/-! ### Generating -/

/-- The rows of a pair and of its record. -/
theorem result_recordText (k : KeyPair) :
    (k.writeRecord.mapError ofKeyError >>= fun record =>
      pure (pairText k ++ row "record:     " (Hex.encode record))).result =
        .ok (pairText k ++ row "record:     " (Hex.encode k.toRecord)) := by
  rw [KeyPair.writeRecord_eq]
  rfl

/-- The pair that is printed: the generated one, in the form that was asked for. -/
theorem result_generatedText {k : KeyPair} (compressed : Bool) (hm : k.Matched)
    (hc : k.isCompressed = true) :
    ∃ l, (generatedText k compressed).result =
        .ok (pairText l ++ row "record:     " (Hex.encode l.toRecord)) ∧
      l.Matched ∧ l.privateKey.scalar = k.privateKey.scalar ∧ l.isCompressed = compressed := by
  cases compressed with
  | true =>
      refine ⟨k, ?_, hm, rfl, hc⟩
      rw [generatedText, if_pos rfl, Traced.pure_bind]
      exact result_recordText k
  | false =>
      have hlt := k.privateKey.value_lt_order
      have hr : Policy.lenient.refusal? (k.privateKey.scalar.value % order) = none := by
        rw [Nat.mod_eq_of_lt hlt]
        exact Policy.refusal?_lenient k.privateKey.value_ne_zero
      obtain ⟨l, hl, hlm, hv, hlc⟩ := KeyPair.ofScalar_accepted false (byteLength_le_of_lt hlt) hr
      rw [Nat.mod_eq_of_lt hlt] at hv
      refine ⟨l, ?_, hlm, Scalar.value_injective hv, hlc⟩
      rw [generatedText, if_neg Bool.false_ne_true, hl, Traced.mapError_pure, Traced.pure_bind]
      exact result_recordText l

/-- **Generating** gives the pair of the draws in the form that was asked for, and its record, or
says why there is none. -/
theorem result_run_generate (arguments : List Bytes) (compressed : Bool) (policy : Policy)
    (source : Entropy.Source σ) (s : σ) :
    (∃ k l, (KeyPair.generate source s).1.result = .ok k ∧
      (generate.run arguments compressed policy source s).result =
        .ok (pairText l ++ row "record:     " (Hex.encode l.toRecord)) ∧
      l.Matched ∧ l.privateKey.scalar = k.privateKey.scalar ∧ l.isCompressed = compressed) ∨
    ∃ e, (KeyPair.generate source s).1.result = .error e ∧
      (generate.run arguments compressed policy source s).result = .error (ofGenerateError e) := by
  rw [Command.run, Traced.result_bind, Traced.mapError]
  rcases hk : (KeyPair.generate source s).1.result with e | k
  · exact .inr ⟨e, rfl, rfl⟩
  · have hs := KeyPair.Sound.of_generate hk
    obtain ⟨l, hl, h⟩ := result_generatedText compressed hs.matched hs.form
    exact .inl ⟨k, l, rfl, hl, h⟩

end Command

end CurveKeys.Tool
