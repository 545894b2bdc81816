import CurveKeys.Tool.Command
import CurveKeys.Tool.Setup

/-!
# Tool — a run

One run of the program, from its arguments to its exit status. What it needs of the world is handed
in: files to read, files to append to, whether the console is a terminal, random octets, the time.

* `run`: what is printed, what is written to the log file, and the exit status.
-/

namespace CurveKeys.Tool

/-- What a run needs of the world. -/
structure Surroundings (σ : Type) where
  contentOf : Bytes → Option Bytes
  canAppend : Bytes → Bool
  terminal : Bool
  entropy : Entropy.Source σ
  supply : σ
  time : Int

/-- How a run ends. -/
inductive Exit where
  | success
  | usage
  | keyError
  | internal
  deriving DecidableEq, Repr

/-- The exit status. -/
def Exit.status : Exit → Nat
  | success  => 0
  | usage    => 1
  | keyError => 2
  | internal => 3

/-- What a run leaves: its exit, the two output streams, and the log file, if one was opened, with
what was added to it. -/
structure Outcome where
  exit : Exit
  stdout : Bytes
  stderr : Bytes
  logFile : Option (Bytes × Bytes)
  deriving DecidableEq

/-- What went to the console and to the log file. -/
structure Written where
  console : Bytes
  logged : Bytes

namespace Written

def add (w : Written) : Output → Written
  | .terminal text   => { w with console := w.console ++ text }
  | .appended _ text => { w with logged := w.logged ++ text }
  | .handed _        => w

/-- What a logger makes of notes. -/
def ofNotes (l : Logger) (terminal : Bool) (time : Int) (notes : List Note) : Written :=
  (notes.flatMap fun note => l.log terminal (note.toEntry time)).foldl
    (fun w delivery => w.add delivery.2) ⟨[], []⟩

end Written

/-- What a failed command says on the console. -/
def Failure.text : Failure → Bytes
  | missing kind         => row "Error: missing " kind.name
  | notHex kind argument =>
    row "Error: invalid hex for " (kind.name ++ Bytes.ascii ": " ++ argument)
  | key cause            => row "Key error: " cause.message
  | internal message     => row "Internal error: " message

def Failure.exit : Failure → Exit
  | missing _   => .usage
  | notHex _ _  => .usage
  | key _       => .keyError
  | internal _  => .internal

/-- What a failed command reports. -/
def Failure.notes : Failure → List Note
  | internal message =>
    [.error .tool "Tool/Run.lean" 1 (Bytes.ascii "Internal error: " ++ message)]
  | _ => []

/-- What is said about a command that does not exist. -/
def unknownCommandText (name : Bytes) : Bytes :=
  row "Unknown command: " name ++ ofLines ["Run 'coinkey-tool help' for usage."]

/-- What is reported before a command runs. -/
def startNotes (s : Settings) (name : Bytes) : List Note :=
  [.debug .tool "Tool/Run.lean" 2 (Bytes.ascii "Effective configuration:\n" ++ s.dump),
   .debug .tool "Tool/Run.lean" 3
     (Bytes.ascii "Running command '" ++ name
       ++ Bytes.ascii (if s.policy.rejectOne then "' (strict)" else "'"))]

/-- How a command ended: the exit, what it printed, what it said on the console, and its notes. -/
structure Ending where
  exit : Exit
  stdout : Bytes
  complaint : Bytes
  notes : List Note

variable {σ : Type}

/-- Runs the command of a name. -/
def runCommand (s : Settings) (name : Bytes) (arguments : List Bytes)
    (source : Entropy.Source σ) (supply : σ) : Ending :=
  match Command.ofName? name with
  | none   => ⟨.usage, [], unknownCommandText name, startNotes s name⟩
  | some c =>
    let t := c.run arguments (!s.switch "uncompressed" false) s.policy source supply
    match t.result with
    | .ok text => ⟨.success, text, [], startNotes s name ++ t.notes⟩
    | .error e => ⟨e.exit, [], e.text, startNotes s name ++ t.notes ++ e.notes⟩

/-- What the settings ask for: the version, help, or a command. -/
def runSettings (s : Settings) (source : Entropy.Source σ) (supply : σ) : Ending :=
  if s.switch "version" false then ⟨.success, versionText, [], []⟩
  else if s.switch "help" false then ⟨.success, usageText, [], []⟩
  else
    match s.positional with
    | []                => ⟨.usage, usageText, [], []⟩
    | name :: arguments => runCommand s name arguments source supply

/-- One run of the program; `arguments` are those after its name. -/
def run (arguments : List Bytes) (world : Surroundings σ) : Outcome :=
  match setUp world.contentOf world.canAppend arguments with
  | .error e           => ⟨.usage, [], row "Error: " e.message, none⟩
  | .ok (s, l, notes) =>
    let ending := runSettings s world.entropy world.supply
    let written := Written.ofNotes l world.terminal world.time (notes ++ ending.notes)
    ⟨ending.exit, ending.stdout, written.console ++ ending.complaint,
      ((logPath? s).filter world.canAppend).map fun path => (path, written.logged)⟩

end CurveKeys.Tool
