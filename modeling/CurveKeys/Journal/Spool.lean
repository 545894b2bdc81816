import CurveKeys.Journal.Logger

/-!
# Journal — the spool

Lines for a file do not go there one by one. A file sink holds text back until it has enough of it,
until it is told to write, or until nobody has the sink any more.

* `Spool.portion`: what of its text a sink writes, and what it keeps; together they are all of it
  (`Spool.portion_append`).
* `Spool.receive`, `Spool.release`: a line for a file, and the end of holding back.
-/

namespace CurveKeys

/-- Text added to the end of a file. -/
structure Addition where
  path : Bytes
  text : Bytes
  deriving DecidableEq

/-- The text that sinks hold back, and what has gone into files, oldest first. -/
structure Spool where
  held : List (SinkId × Addition)
  written : List Addition
  deriving DecidableEq

namespace Spool

/-- Nothing held back and nothing written. -/
def empty : Spool := ⟨[], []⟩

/-- How much text a sink holds back at most. -/
def capacity : Nat := 8191

/-- What a sink writes, and what it keeps, of text to which a line was just added. It keeps all of
it while that fits; otherwise it writes all but the newline at the end. -/
def portion (text : Bytes) : Bytes × Bytes :=
  text.splitAt (if text.length ≤ capacity then 0 else text.length - 1)

theorem portion_append (text : Bytes) : (portion text).1 ++ (portion text).2 = text := by
  simp [portion]

/-- The text that a sink holds back. -/
def heldBy (s : Spool) (id : SinkId) : Bytes :=
  ((s.held.lookup id).map Addition.text).getD []

/-- What other sinks hold back. -/
def heldByOthers (s : Spool) (id : SinkId) : List (SinkId × Addition) :=
  s.held.filter (·.1 != id)

/-- Takes what a sink makes of an entry; only lines for files are of interest. -/
def receive (s : Spool) : Delivery → Spool
  | (id, .appended path line) =>
    let (now, later) := portion (s.heldBy id ++ line)
    ⟨(id, ⟨path, later⟩) :: s.heldByOthers id, s.written ++ [⟨path, now⟩]⟩
  | _ => s

/-- Writes what a sink holds back. -/
def release (s : Spool) (id : SinkId) : Spool :=
  match s.held.lookup id with
  | some addition => ⟨s.heldByOthers id, s.written ++ [addition]⟩
  | none          => s

end Spool

end CurveKeys
