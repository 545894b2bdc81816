import CurveKeys.Bytes.BigEndian

/-!
# Digest — block hashes

A block hash folds a compression function over the 64-octet blocks of a padded message. The padding
is an octet `80`, as few zeros as complete the last block, and the message's length in bits as eight
octets, in the byte order of the hash.

* `BlockHash.digest`: the hash of a message held as a whole.
* `BlockHash.Progress`: the hash of a message that arrives in parts. Whole blocks are compressed as
  they come, and what is too short for a block waits in a buffer.
-/

namespace CurveKeys

/-- The parts of a block hash with chaining values in `σ`. -/
structure BlockHash (σ : Type) where
  initial : σ
  compress : σ → Bytes → σ
  lengthField : Nat → Bytes
  length_lengthField : ∀ n, (lengthField n).length = 8
  output : σ → Bytes

namespace BlockHash

/-- The length of a block in octets. -/
def blockSize : Nat := 64

/-- Where the length field begins in the last block. -/
def lengthOffset : Nat := 56

/-- A string cut into blocks, the last of which may be short. -/
def blocks (b : Bytes) : List Bytes :=
  if _ : b = [] then [] else b.take blockSize :: blocks (b.drop blockSize)
termination_by b.length
decreasing_by
  have := List.length_pos_iff.2 ‹¬b = []›
  simp only [List.length_drop, blockSize]
  omega

variable {σ : Type}

/-- What follows a message of `length` octets. -/
def padding (H : BlockHash σ) (length : Nat) : Bytes :=
  0x80 :: (List.replicate ((119 - length % 64) % 64) 0 ++ H.lengthField (8 * length))

/-- The hash of a message. -/
def digest (H : BlockHash σ) (message : Bytes) : Bytes :=
  H.output ((blocks (message ++ H.padding message.length)).foldl H.compress H.initial)

/-! ### A message in parts -/

/-- A hash under way: the chaining value, the octets that wait for a full block, and how many octets
there have been. -/
structure Progress (σ : Type) where
  chain : σ
  pending : Bytes
  count : Nat
  pending_lt : pending.length < blockSize

/-- Nothing hashed yet. -/
def start (H : BlockHash σ) : Progress σ := ⟨H.initial, [], 0, by decide⟩

/-- Compresses the whole blocks at the front of `b`; the rest waits. -/
def resume (H : BlockHash σ) (count : Nat) (chain : σ) (b : Bytes) : Progress σ :=
  if h : b.length < blockSize then ⟨chain, b, count, h⟩
  else H.resume count (H.compress chain (b.take blockSize)) (b.drop blockSize)
termination_by b.length
decreasing_by
  simp only [List.length_drop, blockSize] at *
  omega

/-- Takes in more octets. The first of them fill the buffer up, unless there are too few. -/
def write (H : BlockHash σ) (p : Progress σ) (data : Bytes) : Progress σ :=
  let room := blockSize - p.pending.length
  let count := p.count + data.length
  if h : data.length < room then
    ⟨p.chain, p.pending ++ data, count, by rw [List.length_append]; omega⟩
  else H.resume count (H.compress p.chain (p.pending ++ data.take room)) (data.drop room)

/-- The hash of all that was written. The mark that ends the message may leave no room for the
length in its block, which then takes a block of its own. -/
def finish (H : BlockHash σ) (p : Progress σ) : Bytes :=
  let marked := p.pending ++ [0x80]
  let field := H.lengthField (8 * p.count)
  if marked.length ≤ lengthOffset then
    H.output (H.compress p.chain (Bytes.fit lengthOffset marked ++ field))
  else
    let chain := H.compress p.chain (Bytes.fit blockSize marked)
    H.output (H.compress chain (List.replicate lengthOffset 0 ++ field))

end BlockHash

end CurveKeys
