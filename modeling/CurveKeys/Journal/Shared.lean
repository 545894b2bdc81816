import CurveKeys.Journal.Spool

/-!
# Journal — shared sinks

A sink belongs to whoever made it and to the logger, as often as it is attached. It lives as long as
one of them has it, and writes what it holds back when the last of them lets it go.

* `Journal.create`, `Journal.letGo`: the beginning and the end of the maker's share.
* `Journal.perform`: an action on the logger, and what becomes of the sinks.
* `Journal.flush`: makes all attached sinks write what they hold back.
-/

namespace CurveKeys

/-- A logger, the sinks that their makers still have, and the text on its way into files. -/
structure Journal where
  logger : Logger
  kept : List SinkId
  spool : Spool
  deriving DecidableEq

namespace Journal

/-- A logger without sinks. -/
def initial : Journal := ⟨.initial, [], .empty⟩

/-- Whether somebody has the sink. -/
def hasOwner (j : Journal) (id : SinkId) : Bool := id ∈ j.kept || id ∈ j.logger.attached

/-- Ends those of the given sinks that nobody has, in order. -/
def settle (j : Journal) (ids : List SinkId) : Journal :=
  { j with spool := (ids.filter fun id => !j.hasOwner id).foldl Spool.release j.spool }

/-- A new sink, which its maker has. -/
def create (j : Journal) (sink : Sink) : Journal × SinkId :=
  let (logger, id) := j.logger.create sink
  ({ j with logger, kept := id :: j.kept }, id)

/-- The maker of a sink lets it go. -/
def letGo (j : Journal) (id : SinkId) : Journal :=
  settle { j with kept := j.kept.filter (· != id) } [id]

/-- Makes the attached sinks write what they hold back, in order. -/
def flush (j : Journal) : Journal :=
  { j with spool := j.logger.attached.foldl Spool.release j.spool }

/-- Passes lines on to their files. -/
def deliver (j : Journal) (deliveries : List Delivery) : Journal :=
  { j with spool := deliveries.foldl Spool.receive j.spool }

/-- The journal after an action on the logger, and what the action delivered. -/
def perform (terminal : Bool) (j : Journal) (action : Logger.Action) : Journal × List Delivery :=
  let (logger, deliveries) := j.logger.perform terminal action
  ((deliver { j with logger } deliveries).settle j.logger.attached, deliveries)

/-- Hands an entry to one sink, past the logger. -/
def writeTo (terminal : Bool) (j : Journal) (e : Entry) (id : SinkId) : Journal × List Delivery :=
  let deliveries := (j.logger.writeTo terminal e id).toList
  (j.deliver deliveries, deliveries)

end Journal

end CurveKeys
