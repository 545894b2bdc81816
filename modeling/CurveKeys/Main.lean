import CurveKeys.Tool.Run
import Std.Time.DateTime

/-!
# Main — the program

Gathers what a run needs of the world, runs it, and writes what it leaves.
-/

namespace CurveKeys.Program

/-- A path as the system takes it, if it is one. -/
def systemPath? (path : Bytes) : Option String := String.fromUTF8? ⟨path.toArray⟩

/-- The content of a file, if it can be opened. -/
def contentOf (path : Bytes) : IO (Option Bytes) := do
  let some path := systemPath? path | return none
  try
    return some (← IO.FS.readBinFile path).toList
  catch _ => return none

/-- A file opened at its end, if it can be. -/
def openAtEnd (path : Bytes) : IO (Option IO.FS.Handle) := do
  let some path := systemPath? path | return none
  try
    return some (← IO.FS.Handle.mk path .append)
  catch _ => return none

/-- Enough answers of the system for one run. -/
def feed : IO Entropy.Feed := do
  let draws ← (List.replicate KeyPair.maxDraws PrivateKey.size).mapM fun n =>
    IO.getRandomBytes n.toUSize
  return ⟨draws.map fun b => .delivered b.toList, 0⟩

/-- One run, from the arguments after the program's name to the exit status. -/
def run (arguments : List Bytes) : IO UInt32 := do
  let path? := Tool.configPath? (Settings.empty.readArguments arguments).1
  let content ← match path? with
    | some path => contentOf path
    | none      => pure none
  let known (path : Bytes) : Option Bytes := if path? = some path then content else none
  let log? ← match Tool.setUp known (fun _ => true) arguments with
    | .ok (s, _) =>
      match Tool.logPath? s with
      | some path => openAtEnd path
      | none      => pure none
    | .error _ => pure none
  let stdout ← IO.getStdout
  let stderr ← IO.getStderr
  let now ← Std.Time.Timestamp.now
  let outcome := Tool.run arguments
    { contentOf := known
      canAppend := fun _ => log?.isSome
      terminal := ← stderr.isTty
      entropy := Entropy.system
      supply := ← feed
      time := now.toMillisecondsSinceUnixEpoch.val }
  stdout.write ⟨outcome.stdout.toArray⟩
  stderr.write ⟨outcome.stderr.toArray⟩
  if let (some log, some (_, text)) := (log?, outcome.logFile) then
    log.write ⟨text.toArray⟩
  return outcome.exit.status.toUInt32

end CurveKeys.Program

def main (arguments : List String) : IO UInt32 :=
  CurveKeys.Program.run (arguments.map fun s => s.toUTF8.toList)
