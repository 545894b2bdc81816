import CurveKeys.Journal.Logger
import CurveKeys.Settings.Query
import CurveKeys.Settings.Read

/-!
# Tool — setting up

Options come from the command line and from the file it names, and the command line wins. The log
goes where the options say.

* `loadSettings`: the options in force.
* `openLogger`: the logger they ask for.
* `setUp`: both.
-/

namespace CurveKeys.Tool

/-- Why the tool does not get as far as its command. -/
inductive SetupError where
  | settings (cause : ReadError)
  | unknownLevel (name : Bytes)
  | unknownCategory (list : Bytes)
  deriving DecidableEq, Repr

/-- The words for a fault in the options; one in a line of a file says which. -/
def SetupError.message : SetupError → Bytes
  | settings cause =>
    cause.message ++ match cause with
      | .badLine _ source number =>
        Bytes.ascii " (" ++ source ++ 0x3a :: Decimal.ofNat number ++ Bytes.ascii ")"
      | _ => []
  | unknownLevel name    => Bytes.ascii "unknown log level '" ++ name ++ Bytes.ascii "'"
  | unknownCategory list => Bytes.ascii "unknown debug category in '" ++ list ++ Bytes.ascii "'"

/-- Settings, unless reading them stopped at a fault. -/
def checked : Settings × Option ReadError → Except SetupError Settings
  | (s, none)       => .ok s
  | (_, some cause) => .error (.settings cause)

/-- The level of the log if no option sets one. -/
def defaultLevel : Bytes := Bytes.ascii "warn"

/-- The settings that hold where nothing else was set. -/
def withDefaults (s : Settings) : Settings :=
  (s.setDefault (Bytes.ascii "loglevel") defaultLevel []).setDefault
    (Bytes.ascii "printtoconsole") (Bytes.ascii "1") []

/-- The name of the file with further settings, if there is to be one. -/
def configPath? (s : Settings) : Option Bytes := s.string? (Bytes.ascii "conf")

/-- Reads the command line, then the file it names, if any, then the command line again. -/
def loadSettings (contentOf : Bytes → Option Bytes) (arguments : List Bytes) :
    Except SetupError Settings := do
  let s ← checked (Settings.empty.readArguments arguments)
  match configPath? s with
  | none      => pure (withDefaults s)
  | some path =>
    let s ← checked (s.readFrom path (contentOf path))
    let s ← checked (s.readArguments arguments)
    pure (withDefaults s)

/-- The sink on the console: everything, without the time. -/
def consoleSink : Sink := .console .trace { timestamp := false } true

/-- The name of the log file, if there is to be one. -/
def logPath? (s : Settings) : Option Bytes :=
  (s.string? (Bytes.ascii "logfile")).filter (!·.isEmpty)

def cannotOpenNote (path : Bytes) : Note :=
  .warn .tool "Tool/Setup.lean" 1 (Bytes.ascii "Cannot open log file " ++ path)

/-- A new sink, attached. -/
def attachNew (l : Logger) (sink : Sink) : Logger :=
  let (l, id) := l.create sink
  (l.perform false (.attach id)).1

/-- The logger that the settings ask for, and what is to be reported first. -/
def openLogger (s : Settings) (canAppend : Bytes → Bool) :
    Except SetupError (Logger × List Note) := do
  let name := (s.string? (Bytes.ascii "loglevel")).getD defaultLevel
  let some level := Level.ofName? name | throw (.unknownLevel name)
  let l := { Logger.initial with level }
  let l ← match s.string? (Bytes.ascii "debug") with
    | none      => pure l
    | some list =>
      match l.enableDebug list with
      | (l, true)  => pure l
      | (_, false) => throw (.unknownCategory list)
  let l := if s.switch "printtoconsole" true then attachNew l consoleSink else l
  match logPath? s with
  | none      => pure (l, [])
  | some path =>
    if canAppend path then pure (attachNew l (.file .trace path true), [])
    else pure (l, [cannotOpenNote path])

/-- The options in force, the logger they ask for, and what is to be reported first. -/
def setUp (contentOf : Bytes → Option Bytes) (canAppend : Bytes → Bool) (arguments : List Bytes) :
    Except SetupError (Settings × Logger × List Note) := do
  let s ← loadSettings contentOf arguments
  let opened ← openLogger s canAppend
  pure (s, opened)

end CurveKeys.Tool
