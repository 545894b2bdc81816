import CurveKeys.Digest.Block
import Mathlib.Tactic.Ring

/-!
# Digest — messages in parts

A hash under way depends on the octets that were written and not on how they were cut: its chaining
value is that of the whole blocks among them, and its buffer is the rest.  So the octets of two
parts could have come as one (`write_write`), and what is finished is the hash of the message as a
whole (`finish_write_start`).

* `BlockHash.resume_append`: what waits in the buffer comes before what follows.
* `BlockHash.write_eq`: filling the buffer up first changes nothing.
* `BlockHash.finish_eq`: the last one or two blocks are those of the padding.
-/

namespace CurveKeys.BlockHash

variable {σ : Type} {H : BlockHash σ} {chain : σ} {count : Nat} {a b : Bytes}

/-! ### Blocks -/

@[simp] theorem blocks_nil : blocks [] = [] := by rw [blocks, dif_pos rfl]

theorem blocks_of_ne_nil (h : b ≠ []) : blocks b = b.take blockSize :: blocks (b.drop blockSize) := by
  rw [blocks, dif_neg h]

/-- A full block in front is cut off. -/
theorem blocks_append (h : a.length = blockSize) (b : Bytes) : blocks (a ++ b) = a :: blocks b := by
  have hne : a ++ b ≠ [] := by
    intro e
    rw [(List.append_eq_nil_iff.mp e).1] at h
    cases h
  rw [blocks_of_ne_nil hne, List.take_left' h, List.drop_left' h]

theorem blocks_of_length (h : b.length = blockSize) : blocks b = [b] := by
  have hb := blocks_append h []
  rwa [List.append_nil, blocks_nil] at hb

/-! ### Whole blocks are compressed and the rest waits -/

theorem resume_of_lt (h : b.length < blockSize) : H.resume count chain b = ⟨chain, b, count, h⟩ := by
  rw [resume, dif_pos h]

/-- A full block in front is compressed. -/
theorem resume_block (h : a.length = blockSize) (b : Bytes) :
    H.resume count chain (a ++ b) = H.resume count (H.compress chain a) b := by
  rw [resume, dif_neg (by rw [List.length_append, h]; omega), List.take_left' h, List.drop_left' h]

@[simp] theorem count_resume : (H.resume count chain b).count = count := by
  fun_induction resume H count chain b with
  | case1 => rfl
  | case2 _ _ _ ih => exact ih

/-- As much waits as there is beyond whole blocks. -/
theorem length_pending_resume :
    (H.resume count chain b).pending.length = b.length % blockSize := by
  fun_induction resume H count chain b with
  | case1 chain b h => exact (Nat.mod_eq_of_lt h).symm
  | case2 chain b h ih =>
      rw [ih, List.length_drop]
      exact (Nat.mod_eq_sub_mod (Nat.not_lt.mp h)).symm

/-- **What waits** comes before what follows, wherever the octets are cut. -/
theorem resume_append (n : Nat) (a b : Bytes) :
    H.resume count chain (a ++ b) =
      H.resume count (H.resume n chain a).chain ((H.resume n chain a).pending ++ b) := by
  fun_induction resume H n chain a with
  | case1 => rfl
  | case2 chain a h ih =>
      have hl : (a.take blockSize).length = blockSize := List.length_take_of_le (Nat.not_lt.mp h)
      rw [← ih, ← resume_block hl, ← List.append_assoc, List.take_append_drop]

/-- The blocks of octets that were taken in are compressed already, but for what waits. -/
theorem foldl_blocks_append (n : Nat) (a b : Bytes) :
    (blocks (a ++ b)).foldl H.compress chain =
      (blocks ((H.resume n chain a).pending ++ b)).foldl H.compress (H.resume n chain a).chain := by
  fun_induction resume H n chain a with
  | case1 => rfl
  | case2 chain a h ih =>
      have hl : (a.take blockSize).length = blockSize := List.length_take_of_le (Nat.not_lt.mp h)
      rw [← ih, ← List.foldl_cons, ← blocks_append hl, ← List.append_assoc, List.take_append_drop]

/-! ### Writing -/

/-- **Writing** goes on with what waits and what is new. -/
theorem write_eq (p : Progress σ) (data : Bytes) :
    H.write p data = H.resume (p.count + data.length) p.chain (p.pending ++ data) := by
  have hp := p.pending_lt
  rw [write]
  by_cases h : data.length < blockSize - p.pending.length
  · rw [dif_pos h, resume_of_lt]
  · have hl : (p.pending ++ data.take (blockSize - p.pending.length)).length = blockSize := by
      rw [List.length_append, List.length_take_of_le (Nat.not_lt.mp h)]
      omega
    rw [dif_neg h, ← resume_block hl, List.append_assoc, List.take_append_drop]

/-- Writing nothing changes nothing. -/
theorem write_nil (p : Progress σ) : H.write p [] = p := by
  rw [write_eq, List.append_nil, resume_of_lt p.pending_lt]
  rfl

/-- **Two parts** could have come as one. -/
theorem write_write (p : Progress σ) (a b : Bytes) :
    H.write (H.write p a) b = H.write p (a ++ b) := by
  rw [write_eq (H.write p a), write_eq p a, count_resume, ← resume_append, write_eq,
    List.append_assoc, List.length_append, Nat.add_assoc]

theorem write_start (message : Bytes) :
    H.write H.start message = H.resume message.length H.initial message := by
  rw [write_eq, start, Nat.zero_add, List.nil_append]

/-! ### Finishing -/

/-- A mark and zeros up to a given length. -/
theorem append_mark {n : Nat} (h : b.length + 1 ≤ n) (rest : Bytes) :
    b ++ 0x80 :: (List.replicate (n - (b.length + 1)) 0 ++ rest) =
      Bytes.fit n (b ++ [0x80]) ++ rest := by
  have hm : (b ++ [0x80]).length = b.length + 1 := List.length_append
  rw [Bytes.fit_of_length_le (hm ▸ h), hm, List.append_cons, ← List.append_assoc]

/-- **The last blocks** are those of the padding, of which there is one more if the mark leaves no
room for the length. -/
theorem finish_eq (p : Progress σ) (h : p.pending.length = p.count % blockSize) :
    H.finish p =
      H.output ((blocks (p.pending ++ H.padding p.count)).foldl H.compress p.chain) := by
  have hp : p.pending.length + 1 ≤ blockSize := p.pending_lt
  have hf := H.length_lengthField (8 * p.count)
  rw [finish, padding, ← blockSize, ← h, List.length_append, List.length_singleton]
  by_cases hl : p.pending.length + 1 ≤ lengthOffset
  · have hz : (119 - p.pending.length) % blockSize = lengthOffset - (p.pending.length + 1) := by
      simp only [lengthOffset, blockSize] at hl ⊢
      omega
    have hb : (Bytes.fit lengthOffset (p.pending ++ [0x80]) ++
        H.lengthField (8 * p.count)).length = blockSize := by
      rw [List.length_append, Bytes.length_fit, hf]
      rfl
    rw [if_pos hl, hz, append_mark hl, blocks_of_length hb]
    rfl
  · have hz : (119 - p.pending.length) % blockSize =
        (blockSize - (p.pending.length + 1)) + lengthOffset := by
      simp only [lengthOffset, blockSize] at hl hp ⊢
      omega
    have hb : (List.replicate lengthOffset 0 ++ H.lengthField (8 * p.count)).length =
        blockSize := by
      rw [List.length_append, List.length_replicate, hf]
      rfl
    rw [if_neg hl, hz, ← List.replicate_append_replicate, List.append_assoc, append_mark hp,
      blocks_append (Bytes.length_fit _ _), blocks_of_length hb]
    rfl

/-- **What is finished** is the hash of all that was written. -/
theorem finish_write_start (H : BlockHash σ) (message : Bytes) :
    H.finish (H.write H.start message) = H.digest message := by
  rw [write_start, finish_eq _ (by rw [length_pending_resume, count_resume]), count_resume,
    ← foldl_blocks_append, digest]

end CurveKeys.BlockHash
