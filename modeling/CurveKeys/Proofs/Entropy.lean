import CurveKeys.Entropy
import Mathlib.Data.List.Basic

/-!
# Entropy — what the system delivers

What ends up in a buffer depends on the octets that the system delivers before it first fails, and
not on how many it delivers at a time or how often it is interrupted.  Every request leaves room for
exactly what is still missing, so no octet is asked for twice or left out.

* `Entropy.delivered`: the octets in the replies up to the first failure.
* `Entropy.Collects`: what collecting into a buffer comes to, in these terms; the empty buffer, a
  failure and one more reply are the three steps (`Collects.empty`, `Collects.stopped`,
  `Collects.following`), and `collect_collects` joins them.
* `Entropy.fst_bytes`: what is drawn, in the same terms.
* `Entropy.delivered_bytes`: a draw uses up what it gives, unless a reply is too long.
-/

namespace CurveKeys.Entropy

/-- The octets of a reply. -/
def Reply.octets : Reply → Bytes
  | .delivered octets => octets
  | .interrupted      => []
  | .failed           => []

/-- The octets that are delivered before the first failure. -/
def delivered (replies : List Reply) : Bytes :=
  (replies.takeWhile (· ≠ .failed)).flatMap Reply.octets

/-- No reply has more octets than its request left room for. -/
def Fit (replies : List Reply) (rooms : List Nat) : Prop :=
  ∀ p ∈ replies.zip rooms, p.1.octets.length ≤ p.2

variable {buffer : Bytes} {reply : Reply} {rest : List Reply} {requests need room : Nat}
  {rooms : List Nat} {feed a b : Feed} {more : Collected}

@[simp] theorem delivered_nil : delivered [] = [] := rfl

@[simp] theorem delivered_failed : delivered (.failed :: rest) = [] := rfl

theorem delivered_cons (h : reply ≠ .failed) :
    delivered (reply :: rest) = reply.octets ++ delivered rest := by
  simp [delivered, h]

theorem fit_cons :
    Fit (reply :: rest) (room :: rooms) ↔ reply.octets.length ≤ room ∧ Fit rest rooms := by
  simp [Fit]

/-! ### Filling a buffer -/

/-- What becomes of a buffer that is filled from a feed. -/
structure Collects (buffer : Bytes) (feed : Feed) (c : Collected) : Prop where
  complete_iff : c.complete = true ↔ buffer.length ≤ (delivered feed.replies).length
  filled : c.complete = true → c.buffer = (delivered feed.replies).take buffer.length
  /-- What was delivered is in front, and behind it the buffer is as it was. -/
  untouched : c.complete = false →
    c.buffer = delivered feed.replies ++ buffer.drop (delivered feed.replies).length
  /-- A request is made only where something is missing, and leaves room for exactly that. -/
  rooms : ∀ i room, c.rooms[i]? = some room →
    0 < room ∧ (delivered (feed.replies.take i)).length + room = buffer.length
  /-- One reply is used up by each request, and the feed may fail one more time after the last. -/
  replies : c.feed.replies = feed.replies.drop c.rooms.length
  requests : c.feed.requests = feed.requests + c.rooms.length
  bounded : c.rooms.length ≤ feed.replies.length + 1
  /-- Nothing that was delivered is lost when the replies fit. -/
  kept : c.complete = true → Fit feed.replies c.rooms →
    delivered feed.replies = c.buffer ++ delivered c.feed.replies

/-- An empty buffer needs no request. -/
theorem Collects.empty (feed : Feed) : Collects [] feed ⟨true, [], [], feed⟩ where
  complete_iff := iff_of_true rfl (Nat.zero_le _)
  filled := fun _ => rfl
  untouched := nofun
  rooms := fun _ _ h => absurd h (by simp)
  replies := rfl
  requests := rfl
  bounded := Nat.zero_le _
  kept := fun _ _ => rfl

/-- When nothing is delivered before a failure, the buffer stays as it is. -/
theorem Collects.stopped (hb : buffer ≠ []) (hd : delivered feed.replies = []) :
    Collects buffer feed
      ⟨false, buffer, [buffer.length], ⟨feed.replies.drop 1, feed.requests + 1⟩⟩ where
  complete_iff := by
    rw [hd]
    exact iff_of_false nofun (Nat.not_le.mpr (List.length_pos_iff.mpr hb))
  filled := nofun
  untouched := fun _ => by rw [hd]; rfl
  rooms := by
    intro i room h
    obtain ⟨rfl, rfl⟩ : i = 0 ∧ buffer.length = room := by simpa [List.getElem?_cons] using h
    exact ⟨List.length_pos_iff.mpr hb, Nat.zero_add _⟩
  replies := rfl
  requests := rfl
  bounded := Nat.succ_le_succ (Nat.zero_le _)
  kept := nofun

/-- **One more reply** in front: its octets go to the front of the buffer, as far as there is room,
and the others into the rest of it. -/
theorem Collects.following (hb : buffer ≠ []) (hr : reply ≠ .failed)
    (h : Collects (buffer.drop (reply.octets.take buffer.length).length) ⟨rest, requests + 1⟩ more) :
    Collects buffer ⟨reply :: rest, requests⟩
      (more.following buffer.length (reply.octets.take buffer.length)) := by
  have hd : delivered (reply :: rest) = reply.octets ++ delivered rest := delivered_cons hr
  have hl : (buffer.drop (reply.octets.take buffer.length).length).length =
      buffer.length - reply.octets.length := by
    rw [List.length_drop, List.length_take]
    omega
  have hn := List.length_pos_iff.mpr hb
  obtain ⟨hcomplete, hfilled, huntouched, hrooms, hreplies, hrequests, hbounded, hkept⟩ := h
  dsimp only at hcomplete hfilled huntouched hrooms hreplies hrequests hbounded hkept
  rw [hl] at hcomplete hfilled
  have hcomplete' : more.complete = true ↔
      buffer.length ≤ (reply.octets ++ delivered rest).length := by
    rw [hcomplete, List.length_append]
    omega
  refine ⟨hd ▸ hcomplete', fun hc => ?_, fun hc => ?_, fun i room hi => ?_, hreplies, ?_,
    Nat.succ_le_succ hbounded, fun hc hf => ?_⟩
  · rw [hd, List.take_append, ← hfilled hc]
    rfl
  · -- As something is missing in the end, the octets of the reply were taken as a whole.
    have hle : reply.octets.length ≤ buffer.length := by
      have := mt hcomplete'.mpr (Bool.eq_false_iff.mp hc)
      rw [List.length_append] at this
      omega
    have hmore := huntouched hc
    rw [List.take_of_length_le hle, List.drop_drop] at hmore
    rw [Collected.following, List.take_of_length_le hle, hd, List.length_append,
      List.append_assoc, ← hmore]
  · cases i with
    | zero =>
        obtain rfl : buffer.length = room := Option.some.inj hi
        exact ⟨hn, Nat.zero_add _⟩
    | succ i =>
        obtain ⟨hpos, hsum⟩ := hrooms i room hi
        rw [List.take_succ_cons, delivered_cons hr, List.length_append]
        rw [hl] at hsum
        omega
  · exact hrequests.trans (Nat.add_right_comm requests 1 more.rooms.length)
  · obtain ⟨hle, hf⟩ := fit_cons.mp hf
    rw [hd, hkept hc hf, ← List.append_assoc, Collected.following, List.take_of_length_le hle]

/-- **Collecting**, whatever the replies are. -/
theorem collectInto_collects (requests : Nat) (buffer : Bytes) (replies : List Reply) :
    Collects buffer ⟨replies, requests⟩ (collectInto requests buffer replies) := by
  induction replies generalizing requests buffer with
  | nil =>
      by_cases hb : buffer = []
      · subst hb
        exact .empty _
      · rw [collectInto, if_neg (mt List.isEmpty_iff.mp hb)]
        exact .stopped hb rfl
  | cons reply rest ih =>
      by_cases hb : buffer = []
      · subst hb
        exact .empty _
      have hb' := mt List.isEmpty_iff.mp hb
      cases reply with
      | delivered octets =>
          rw [collectInto, if_neg hb']
          exact .following hb nofun (ih _ _)
      | interrupted =>
          rw [collectInto, if_neg hb']
          have h := @Collects.following buffer .interrupted _ _ _ hb nofun (ih (requests + 1) _)
          simpa [Reply.octets] using h
      | failed =>
          rw [collectInto, if_neg hb']
          exact .stopped hb rfl

theorem collect_collects (buffer : Bytes) (feed : Feed) :
    Collects buffer feed (collect buffer feed) :=
  collectInto_collects feed.requests buffer feed.replies

theorem collect_nil (feed : Feed) : collect [] feed = ⟨true, [], [], feed⟩ := by
  obtain ⟨replies, requests⟩ := feed
  cases replies <;> rfl

/-! ### Whole draws -/

/-- **What is drawn** depends on what is delivered before the first failure. -/
theorem fst_bytes (need : Nat) (feed : Feed) :
    (bytes need feed).1 =
      if need ≤ (delivered feed.replies).length then .ok ((delivered feed.replies).take need)
      else .error .unavailable := by
  have h := collect_collects (List.replicate need 0) feed
  have hi := h.complete_iff
  have hf := h.filled
  rw [List.length_replicate] at hi hf
  rw [bytes]
  by_cases hn : need ≤ (delivered feed.replies).length
  · rw [if_pos hn, if_pos (hi.mpr hn), hf (hi.mpr hn)]
  · rw [if_neg hn, if_neg (mt hi.mp hn)]

theorem fst_bytes_congr (h : delivered a.replies = delivered b.replies) (need : Nat) :
    (bytes need a).1 = (bytes need b).1 := by
  rw [fst_bytes, fst_bytes, h]

theorem fst_word_congr (h : delivered a.replies = delivered b.replies) :
    (word a).1 = (word b).1 :=
  congrArg (Except.map _) (fst_bytes_congr h 8)

/-- The replies to the requests for `need` octets fit. -/
def Feed.Fits (need : Nat) (feed : Feed) : Prop :=
  Fit feed.replies (collect (List.replicate need 0) feed).rooms

/-- **Nothing is lost between draws** when the replies fit. -/
theorem delivered_bytes {octets : Bytes} (h : bytes need a = (.ok octets, b)) (hf : a.Fits need) :
    delivered a.replies = octets ++ delivered b.replies := by
  rw [bytes] at h
  obtain ⟨hb, rfl⟩ := Prod.mk.inj h
  by_cases hc : (collect (List.replicate need 0) a).complete = true
  · rw [if_pos hc] at hb
    obtain rfl := Except.ok.inj hb
    exact (collect_collects _ a).kept hc hf
  · rw [if_neg hc] at hb
    cases hb

end CurveKeys.Entropy
