import CurveKeys.Journal.Note

/-!
# Journal — traced computations

A traced computation has a result, or a cause of failure, and the notes it made on the way. Failing
does not undo notes.

* `result_bind`, `notes_bind`: what a sequence of two computations gives and reports.
-/

namespace CurveKeys

/-- A result or a failure, and the notes made before it. -/
structure Traced (ε α : Type) where
  result : Except ε α
  notes : List Note

namespace Traced

variable {ε ε' α β : Type}

/-- Ends in failure, with a last note. -/
def fail (e : ε) (note : Note) : Traced ε α := ⟨.error e, [note]⟩

/-- Reports and goes on. -/
def report (note : Note) : Traced ε Unit := ⟨.ok (), [note]⟩

/-- A result without notes. -/
def ofExcept (r : Except ε α) : Traced ε α := ⟨r, []⟩

/-- The second computation runs only when the first has a result. -/
def bind (x : Traced ε α) (f : α → Traced ε β) : Traced ε β :=
  match x.result with
  | .ok a    => ⟨(f a).result, x.notes ++ (f a).notes⟩
  | .error e => ⟨.error e, x.notes⟩

instance : Monad (Traced ε) where
  pure a := ⟨.ok a, []⟩
  bind := bind

/-- The same computation with its failures restated. -/
def mapError (f : ε → ε') (x : Traced ε α) : Traced ε' α := ⟨x.result.mapError f, x.notes⟩

@[simp] theorem result_pure (a : α) : (pure a : Traced ε α).result = .ok a := rfl

@[simp] theorem notes_pure (a : α) : (pure a : Traced ε α).notes = [] := rfl

@[simp] theorem pure_bind (a : α) (f : α → Traced ε β) : (pure a : Traced ε α) >>= f = f a := rfl

@[simp] theorem fail_bind (e : ε) (note : Note) (f : α → Traced ε β) :
    (fail e note : Traced ε α) >>= f = fail e note := rfl

@[simp] theorem mapError_pure (f : ε → ε') (a : α) : (pure a : Traced ε α).mapError f = pure a := rfl

theorem result_bind (x : Traced ε α) (f : α → Traced ε β) :
    (x >>= f).result = x.result.bind fun a => (f a).result := by
  change (bind x f).result = _
  unfold bind
  cases x.result <;> rfl

theorem notes_bind (x : Traced ε α) (f : α → Traced ε β) :
    (x >>= f).notes = x.notes ++ match x.result with
      | .ok a    => (f a).notes
      | .error _ => [] := by
  change (bind x f).notes = _
  unfold bind
  cases x.result <;> simp

/-- What holds of the notes of both computations holds of those of the sequence. -/
theorem forall_notes_bind {p : Note → Prop} {x : Traced ε α} {f : α → Traced ε β}
    (hx : ∀ note ∈ x.notes, p note) (hf : ∀ a, ∀ note ∈ (f a).notes, p note) :
    ∀ note ∈ (x >>= f).notes, p note := by
  intro note h
  rw [notes_bind] at h
  rcases List.mem_append.mp h with h | h
  · exact hx note h
  · cases e : x.result with
    | ok a =>
        rw [e] at h
        exact hf a note h
    | error _ =>
        rw [e] at h
        cases h

end Traced

end CurveKeys
