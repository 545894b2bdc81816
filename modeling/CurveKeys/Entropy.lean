import CurveKeys.Bytes.BigEndian

/-!
# Entropy — random octets

The system is asked for octets until there are enough: it may deliver fewer than asked for, be
interrupted, or fail. Only an interruption is tried again.

* `Entropy.collect`: what such a conversation leaves in a buffer.
* `Entropy.Source`: anything that can be asked for octets.
-/

namespace CurveKeys.Entropy

/-- One answer of the system to a request. -/
inductive Reply where
  | delivered (octets : Bytes)
  | interrupted
  | failed
  deriving DecidableEq, Repr

/-- The answers still to come and the requests made so far. When no answer is left, the system
fails. -/
structure Feed where
  replies : List Reply
  requests : Nat
  deriving DecidableEq, Repr

/-- What became of a buffer: whether it was filled, the octets in it, the room that each request left
for an answer, and the feed after. -/
structure Collected where
  complete : Bool
  buffer : Bytes
  rooms : List Nat
  feed : Feed
  deriving DecidableEq, Repr

/-- The same after a request that left some room, of which `taken` was used. -/
def Collected.following (more : Collected) (room : Nat) (taken : Bytes) : Collected :=
  { more with buffer := taken ++ more.buffer, rooms := room :: more.rooms }

/-- Fills a buffer from its front, and asks each time for as many octets as are still missing;
`requests` have been made before. What is not filled stays as it is. -/
def collectInto (requests : Nat) (buffer : Bytes) : List Reply → Collected
  | [] =>
    if buffer.isEmpty then ⟨true, [], [], ⟨[], requests⟩⟩
    else ⟨false, buffer, [buffer.length], ⟨[], requests + 1⟩⟩
  | reply :: rest =>
    if buffer.isEmpty then ⟨true, [], [], ⟨reply :: rest, requests⟩⟩
    else
      match reply with
      | .failed           => ⟨false, buffer, [buffer.length], ⟨rest, requests + 1⟩⟩
      | .interrupted      =>
        (collectInto (requests + 1) buffer rest).following buffer.length []
      | .delivered octets =>
        let taken := octets.take buffer.length
        (collectInto (requests + 1) (buffer.drop taken.length) rest).following buffer.length taken

/-- Asks the system for the octets of a buffer. -/
def collect (buffer : Bytes) (feed : Feed) : Collected :=
  collectInto feed.requests buffer feed.replies

/-- Why there are no random octets. -/
inductive Error where
  | unavailable
  deriving DecidableEq, Repr

def Error.message : Error → Bytes
  | unavailable => Bytes.ascii "Failed to get random bytes from OS"

/-- All of `need` octets, or none. -/
def bytes (need : Nat) (feed : Feed) : Except Error Bytes × Feed :=
  let c := collect (List.replicate need 0) feed
  (if c.complete then .ok c.buffer else .error .unavailable, c.feed)

/-- A 64-bit word, its first octet the least significant. -/
def word (feed : Feed) : Except Error UInt64 × Feed :=
  let (octets, feed) := bytes 8 feed
  (octets.map fun b => UInt64.ofNat (BigEndian.value b.reverse), feed)

/-- Anything that can be asked for a number of octets, and how it goes on from there. -/
structure Source (σ : Type) where
  draw : Nat → σ → Except Error Bytes × σ

/-- The system as a source. -/
def system : Source Feed := ⟨bytes⟩

/-- A source that never fails: its draws are given in advance, each cut or padded with zeros to the
length asked for. The state is the number of draws made. -/
def replay (draws : Nat → Bytes) : Source Nat := ⟨fun n i => (.ok (Bytes.fit n (draws i)), i + 1)⟩

end CurveKeys.Entropy
