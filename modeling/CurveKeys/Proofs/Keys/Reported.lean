import CurveKeys.Journal.Logger
import CurveKeys.Proofs.Keys.Exchanged

/-!
# Keys — what is reported of a secret

A pair that is made of a scalar, written as a record and read back reports the length of the record
and the form of the public key.  The length is that of all records of the form, and a scalar is
reduced before the public key is derived from it, so nothing that is reported tells one scalar from
another.

* `Logger.shown`: what a logger shows of notes.
* `KeyPair.rewritten`, `KeyPair.reported`: a pair, its record and the pair of the record, and the
  notes on the way.
* `KeyPair.rewritten_eq`: the pair comes back, with one note that depends on its form only.
* `KeyPair.reported_discreet`: two scalars cannot be told apart by what is shown.
-/

namespace CurveKeys

open Curve

/-- Level, category and message of the notes that a logger lets through. -/
def Logger.shown (l : Logger) (notes : List Note) : List (Level × Bytes × Bytes) :=
  (notes.filter fun note => l.writes note.level note.category).map fun note =>
    (note.level, note.category, note.message)

namespace KeyPair

/-- The pair of a scalar, its record, and the pair of the record under a policy of its own. -/
def rewritten (d : Scalar) (c : Bool) (policy reader : Policy) : Traced KeyError KeyPair := do
  let k ← ofScalar (some d) c policy
  let r ← k.writeRecord
  ofRecord r reader

/-- The notes on the way, and before them those of the curve if it is set up for the first time, in
the given number of microseconds. -/
def reported (setUp : Option Nat) (d : Scalar) (c : Bool) (policy reader : Policy) : List Note :=
  setUp.elim [] readyNotes ++ (rewritten d c policy reader).notes

variable {d : Scalar} {c : Bool} {policy reader : Policy} {k : KeyPair}

/-! ### Notes about the width of a scalar -/

/-- The letters with which the messages begin that tell how wide a scalar was: it was reduced, or
was too wide for the arithmetic. -/
def widthLetters : Bytes := Bytes.ascii "RB"

/-- A message that tells how wide a scalar was. -/
def TellsWidth (note : Note) : Prop := ∃ letter ∈ widthLetters, note.message.head? = some letter

theorem tellsWidth_of_raise {α : Type} {category operation : Bytes} {queue : List QueuedError}
    (h : operation.head? = some 0x42) :
    ∀ note ∈ (ErrorQueue.raise category operation queue : Traced QueuedFailure α).notes,
      TellsWidth note := by
  intro note hn
  obtain rfl := List.mem_singleton.mp hn
  refine ⟨0x42, by decide, ?_⟩
  change (operation ++ _ ++ _).head? = _
  rw [List.append_assoc, List.head?_append, h]
  rfl

theorem tellsWidth_of_held (d : Scalar) : ∀ note ∈ d.held.notes, TellsWidth note := by
  rw [Scalar.held]
  split_ifs
  · exact tellsWidth_of_raise rfl
  · exact fun _ h => absurd h List.not_mem_nil

theorem tellsWidth_of_remainder (d m : Scalar) :
    ∀ note ∈ (d.remainder m).notes, TellsWidth note := by
  refine Traced.forall_notes_bind (tellsWidth_of_held d) fun _ =>
    Traced.forall_notes_bind (tellsWidth_of_held m) fun _ => ?_
  split_ifs
  · exact tellsWidth_of_raise rfl
  · exact tellsWidth_of_raise rfl
  · exact fun _ h => absurd h List.not_mem_nil

/-- All that is reported where a scalar is shortened is of this kind. -/
theorem tellsWidth_of_shorten (d : Scalar) :
    ∀ note ∈ (PublicKey.shorten d).notes, TellsWidth note := by
  rw [PublicKey.shorten]
  split_ifs
  · refine Traced.forall_notes_bind (tellsWidth_of_remainder d _) fun _ => ?_
    intro note h
    obtain rfl := List.mem_singleton.mp h
    exact ⟨0x52, by decide, rfl⟩
  · exact fun _ h => absurd h List.not_mem_nil

/-! ### A pair and its record -/

/-- **The pair comes back**, with one note, which depends on the form of the public key only. -/
theorem rewritten_eq (h : (ofScalar (some d) c policy).result = .ok k)
    (hr : reader.rejectOne = true → policy.rejectOne = true) :
    rewritten d c policy reader =
      ⟨.ok k, [Record.encodedNote (if c = true then 309 else 341) c]⟩ := by
  obtain ⟨d', hd, hle, hn, -, -, -⟩ := ofScalar_ok h
  obtain rfl := Option.some.inj hd
  obtain ⟨l, hl, hm, hv, hc⟩ := ofScalar_accepted c (d.byteLength_told ▸ hle) hn
  rw [ofScalar_told] at hl
  rw [hl] at h
  obtain rfl : l = k := Except.ok.inj h
  -- What the writer did not refuse, the reader does not refuse either.
  have hread : reader.refusal? l.privateKey.scalar.value = none := by
    rw [hv]
    obtain ⟨hz, ho⟩ := Policy.refusal?_eq_none_iff.mp hn
    exact Policy.refusal?_eq_none_iff.mpr ⟨hz, fun e => ho ⟨hr e.1, e.2⟩⟩
  rw [rewritten, hl, Traced.pure_bind, writeRecord_eq, ← hc, ← l.length_toRecord]
  change (⟨(ofRecord l.toRecord reader).result, [_] ++ (ofRecord l.toRecord reader).notes⟩ :
    Traced KeyError KeyPair) = _
  rw [hm.ofRecord_toRecord hread]
  rfl

/-- **What is reported** of a pair that comes back, whichever scalar it was made of. -/
theorem reported_eq (setUp : Option Nat) (h : (ofScalar (some d) c policy).result = .ok k)
    (hr : reader.rejectOne = true → policy.rejectOne = true) :
    reported setUp d c policy reader =
      setUp.elim [] readyNotes ++ [Record.encodedNote (if c = true then 309 else 341) c] := by
  rw [reported, rewritten_eq h hr]

/-- Nothing is told of the width of a scalar. -/
theorem not_tellsWidth_of_reported {setUp : Option Nat} {note : Note}
    (h : note ∈
      setUp.elim [] readyNotes ++ [Record.encodedNote (if c = true then 309 else 341) c]) :
    ¬ TellsWidth note := by
  have hs : note.message.head? = some 0x73 ∨ note.message.head? = some 0x45 := by
    rcases List.mem_append.mp h with h | h
    · cases setUp with
      | none => cases h
      | some microseconds => rcases List.mem_pair.mp h with rfl | rfl <;> exact .inl rfl
    · obtain rfl := List.mem_singleton.mp h
      exact .inr rfl
  rintro ⟨letter, hl, he⟩
  rw [he] at hs
  rcases hs with hs | hs
  · cases hs
    exact absurd hl (by decide)
  · cases hs
    exact absurd hl (by decide)

/-- **Nothing is told of the scalar.**  The pair of a scalar comes back from its record, under the
same policy or the lenient one, and of two such scalars any logger shows the same.  It never shows
what is reported where a scalar is shortened. -/
theorem reported_discreet (l : Logger) (setUp : Option Nat) {d₁ d₂ : Scalar} {k₁ k₂ : KeyPair}
    (h₁ : (ofScalar (some d₁) c policy).result = .ok k₁)
    (h₂ : (ofScalar (some d₂) c policy).result = .ok k₂)
    (hr : reader.rejectOne = true → policy.rejectOne = true) :
    (rewritten d₁ c policy reader).result = .ok k₁ ∧
      (rewritten d₂ c policy reader).result = .ok k₂ ∧
      l.shown (reported setUp d₁ c policy reader) = l.shown (reported setUp d₂ c policy reader) ∧
      ∀ d, ∀ note ∈ (PublicKey.shorten d).notes,
        (note.level, note.category, note.message) ∉
          l.shown (reported setUp d₁ c policy reader) := by
  refine ⟨?_, ?_, ?_, fun d note hn hs => ?_⟩
  · rw [rewritten_eq h₁ hr]
  · rw [rewritten_eq h₂ hr]
  · rw [reported_eq setUp h₁ hr, reported_eq setUp h₂ hr]
  · obtain ⟨other, ho, he⟩ := List.mem_map.mp hs
    have hm : other.message = note.message := (Prod.mk.inj (Prod.mk.inj he).2).2
    rw [reported_eq setUp h₁ hr] at ho
    obtain ⟨letter, hl, hw⟩ := tellsWidth_of_shorten d note hn
    exact not_tellsWidth_of_reported (List.mem_filter.mp ho).1 ⟨letter, hl, hm ▸ hw⟩

/-- A short scalar, and one that is longer than the order. -/
theorem reported_discreet_short_long :
    ∃ k₁ k₂, (ofScalar (some (.ofNat 2)) false .strict).result = .ok k₁ ∧
      (ofScalar (some (.ofNat (256 ^ 40))) false .strict).result = .ok k₂ ∧
      (rewritten (.ofNat 2) false .strict .strict).result = .ok k₁ ∧
      (rewritten (.ofNat (256 ^ 40)) false .strict .strict).result = .ok k₂ ∧
      ({ Logger.initial with level := .trace }.shown
          (reported (some 7) (.ofNat 2) false .strict .strict)) =
        { Logger.initial with level := .trace }.shown
          (reported (some 7) (.ofNat (256 ^ 40)) false .strict .strict) := by
  have haccepted : ∀ n, n < 256 ^ 64 → n % order ≠ 0 → n % order ≠ 1 →
      ∃ k, (ofScalar (some (.ofNat n)) false .strict).result = .ok k := by
    intro n hw h₀ h₁
    have hn : Policy.strict.refusal? ((Scalar.ofNat n).value % order) = none := by
      rw [Scalar.value_ofNat]
      exact Policy.refusal?_eq_none_iff.mpr ⟨h₀, fun e => h₁ e.2⟩
    obtain ⟨k, hk, -⟩ := ofScalar_accepted false (Scalar.byteLength_ofNat_le hw) hn
    exact ⟨k, by rw [hk]; rfl⟩
  obtain ⟨k₁, h₁⟩ := haccepted 2 (by decide) (by decide) (by decide)
  obtain ⟨k₂, h₂⟩ := haccepted (256 ^ 40) (by decide) (by decide) (by decide)
  obtain ⟨r₁, r₂, hs, -⟩ :=
    reported_discreet { Logger.initial with level := .trace } (some 7) h₁ h₂ id
  exact ⟨k₁, k₂, h₁, h₂, r₁, r₂, hs⟩

end KeyPair

end CurveKeys
