import CurveKeys.Digest.Block

/-!
# Digest — hashers

A hasher is the owner of a hash under way. It can hand that over to another hasher and is empty
then. After a digest was taken from it a hasher has to be reset before it is used again: what the
digest leaves behind is up to the hash, and is a parameter here.

* `Hasher.Step`, `Hasher.take`: what is done with a hasher, and what it answers.
* `Hasher.run`: the answers to steps, one after the other.
-/

namespace CurveKeys

/-- The owner of a hash under way, empty after it was handed over. -/
structure Hasher (σ : Type) where
  held : Option (BlockHash.Progress σ)

namespace Hasher

/-- What is done with a hasher: to lend it is to hand its hash over and to take it back. -/
inductive Step where
  | write (data : Bytes)
  | reset
  | lend
  | finish
  deriving DecidableEq

variable {σ : Type}

/-- A hasher with nothing hashed yet. -/
def new (H : BlockHash σ) : Hasher σ := ⟨some H.start⟩

/-- Hands over what is held: the hasher, now empty, and the new owner. -/
def handOver (h : Hasher σ) : Hasher σ × Hasher σ := (⟨none⟩, ⟨h.held⟩)

/-- Takes a step, with the digest if one is asked for; `left` is what that leaves behind. -/
def take (H : BlockHash σ) (left : BlockHash.Progress σ → BlockHash.Progress σ) :
    Step → Hasher σ → Hasher σ × Option Bytes
  | .write data, h => (⟨h.held.map (H.write · data)⟩, none)
  | .reset,      h => (⟨h.held.map fun _ => H.start⟩, none)
  | .lend,       h => (h.handOver.2.handOver.2, none)
  | .finish,     h => (⟨h.held.map left⟩, h.held.map H.finish)

/-- The answers to steps, one after the other. -/
def run (H : BlockHash σ) (left : BlockHash.Progress σ → BlockHash.Progress σ) :
    List Step → Hasher σ → List (Option Bytes)
  | [],            _ => []
  | step :: steps, h => (take H left step h).2 :: run H left steps (take H left step h).1

end Hasher

end CurveKeys
