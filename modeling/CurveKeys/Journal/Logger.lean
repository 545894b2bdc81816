import CurveKeys.Journal.Sink

/-!
# Journal — the logger

A logger has a global level, levels of its own for some categories, and attached sinks. It writes an
entry when the level of the entry reaches the level of its category, or the global level if the
category has none, and hands it to each attachment in turn.

* `Logger.perform`: one action on a logger and what it delivers.
* `Logger.enableDebug`: opens up what a list of categories asks for, or does nothing at all.
-/

namespace CurveKeys

/-- The identity of a sink. -/
abbrev SinkId := Nat

/-- A global level, the levels of categories, all sinks there are, and those attached, in order. -/
structure Logger where
  level : Level
  categories : List (Bytes × Level)
  sinks : List (SinkId × Sink)
  attached : List SinkId
  deriving DecidableEq

/-- An output and the sink it comes from. -/
abbrev Delivery := SinkId × Output

namespace Logger

/-- Global level `info`, and nothing else. -/
def initial : Logger := ⟨.info, [], [], []⟩

/-- The level an entry of a category must reach. -/
def effectiveLevel (l : Logger) (category : Bytes) : Level :=
  (l.categories.lookup category).getD l.level

/-- Whether an entry is written. Nothing is written at the level `off`. -/
def writes (l : Logger) (level : Level) (category : Bytes) : Bool :=
  level ≠ .off && l.effectiveLevel category ≤ level

/-- Gives a category a level of its own. -/
def setCategory (l : Logger) (category : Bytes) (level : Level) : Logger :=
  { l with categories := (category, level) :: l.categories.filter (·.1 != category) }

/-- A new sink, not attached yet. -/
def create (l : Logger) (sink : Sink) : Logger × SinkId :=
  ({ l with sinks := l.sinks ++ [(l.sinks.length, sink)] }, l.sinks.length)

/-- The sink of an identity. -/
def sink? (l : Logger) (id : SinkId) : Option Sink := l.sinks.lookup id

/-- What one sink makes of an entry. -/
def writeTo (l : Logger) (terminal : Bool) (e : Entry) (id : SinkId) : Option Delivery := do
  let sink ← l.sink? id
  let output ← sink.write terminal e
  some (id, output)

/-- What an entry becomes in the attached sinks, in order. -/
def log (l : Logger) (terminal : Bool) (e : Entry) : List Delivery :=
  if l.writes e.level e.category then l.attached.filterMap (l.writeTo terminal e) else []

/-- What can be done with a logger. -/
inductive Action where
  | attach (id : SinkId)
  | detach (id : SinkId)
  | detachAll
  | setLevel (level : Level)
  | setCategory (category : Bytes) (level : Level)
  | clearCategories
  | setSinkLevel (id : SinkId) (level : Level)
  | log (entry : Entry)
  deriving DecidableEq

/-- The logger after an action, and what the action delivered. -/
def perform (terminal : Bool) (l : Logger) : Action → Logger × List Delivery
  | .attach id                  => ({ l with attached := l.attached ++ [id] }, [])
  | .detach id                  => ({ l with attached := l.attached.filter (· != id) }, [])
  | .detachAll                  => ({ l with attached := [] }, [])
  | .setLevel level             => ({ l with level }, [])
  | .setCategory category level => (l.setCategory category level, [])
  | .clearCategories            => ({ l with categories := [] }, [])
  | .setSinkLevel id level      =>
    ({ l with sinks := l.sinks.map fun (i, s) => (i, if i = id then s.withLevel level else s) }, [])
  | .log entry                  => (l, l.log terminal entry)

/-- The names in a list of categories, in lower case; empty pieces and the two ways of saying no
are left out. -/
def debugNames (list : Bytes) : List Bytes :=
  ((Text.pieces 0x2c list).map Text.lower).filter fun name =>
    !name.isEmpty && name != Bytes.ascii "0" && name != Bytes.ascii "false"

/-- The ways of asking for all categories. -/
def isAll (name : Bytes) : Bool := name ∈ ["1", "all", "true"].map Bytes.ascii

/-- Whether a name is one of a category. -/
def isKnown (name : Bytes) : Bool := name ∈ Category.all.map Category.name

/-- Opens up for debugging notes: the named categories, or everything if that is named or the list
is empty. Tells whether all names are known; if one is not, nothing is changed. -/
def enableDebug (l : Logger) (list : Bytes) : Logger × Bool :=
  let names := debugNames list
  if names.isEmpty && !list.isEmpty then (l, true)
  else if names.any fun name => !isAll name && !isKnown name then (l, false)
  else if names.isEmpty || names.any isAll then ({ l with level := .debug }, true)
  else (names.foldl (fun l name => l.setCategory name .debug) l, true)

end Logger

end CurveKeys
