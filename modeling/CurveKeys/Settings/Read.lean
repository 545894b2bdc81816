import CurveKeys.Settings.Quoted
import CurveKeys.Settings.Store

/-!
# Settings — reading texts and arguments

A text is read line by line: blank lines, comments, section headers, and settings as `key = value`
or as a bare key. Arguments are read one by one: options as `--key=value` or `--key`, and all else
by position. A bare key is set to `true`, a bare `nokey` sets `key` to `false`.

Reading stops at the first fault; what was read before it stays.

* `Line.read`, `Argument.read`: what one line and one argument say.
* `Settings.readText`, `Settings.readFrom`, `Settings.readArguments`: read all of them.
-/

namespace CurveKeys

/-- Why a line cannot be read. -/
inductive LineError where
  | tooLong
  | unclosedSection
  | invalidKey (key : Bytes)
  deriving DecidableEq, Repr

/-- Why reading stopped. -/
inductive ReadError where
  | cannotOpen (path : Bytes)
  | tooLarge (path : Bytes)
  | badLine (cause : LineError) (source : Bytes) (number : Nat)
  | badOption (argument : Bytes) (index : Nat)
  deriving DecidableEq, Repr

/-- The length a line may have. -/
def Line.maxLength : Nat := 4096

/-- The size a file may have. -/
def Settings.maxFileSize : Nat := 1048576

namespace ReadError

def message : ReadError → Bytes
  | cannotOpen path               => Bytes.ascii "Cannot open file: " ++ path
  | tooLarge _                    =>
    Bytes.ascii "Config file too large (max " ++ Decimal.ofNat Settings.maxFileSize
      ++ Bytes.ascii " bytes)"
  | badLine .tooLong _ _          =>
    Bytes.ascii "Line too long (max " ++ Decimal.ofNat Line.maxLength ++ Bytes.ascii " characters)"
  | badLine .unclosedSection _ _  => Bytes.ascii "Missing closing bracket in section header"
  | badLine (.invalidKey key) _ _ =>
    Bytes.ascii "Invalid key: '" ++ key ++ Bytes.ascii "'"
  | badOption argument _          => Bytes.ascii "Invalid option: " ++ argument

/-- The text the fault is in, empty if it is in none. -/
def source : ReadError → Bytes
  | cannotOpen _       => []
  | tooLarge path      => path
  | badLine _ source _ => source
  | badOption _ _      => Origin.commandLine.source

/-- The number of the line or argument, zero if the fault is in none. -/
def number : ReadError → Nat
  | badLine _ _ number => number
  | badOption _ index  => index
  | _                  => 0

end ReadError

/-- Letters, digits, underscore, minus and point. -/
def isKeyOctet (c : UInt8) : Bool :=
  Text.isLower c || Text.isUpper c || Text.isDigit c || c == 0x5f || c == 0x2d || c == 0x2e

/-- At least one octet, all of which keys may have. -/
def isValidKey (key : Bytes) : Bool := !key.isEmpty && key.all isKeyOctet

/-- What a bare key sets: itself to `true`, or what follows a leading `no` to `false` if that begins
with a small letter. -/
def bareKey (s : Bytes) : Bytes × Bytes :=
  match s with
  | 0x6e :: 0x6f :: c :: rest =>
    if Text.isLower c then (c :: rest, Bytes.ascii "false") else (s, Bytes.ascii "true")
  | _ => (s, Bytes.ascii "true")

/-- What one line says. -/
inductive Line where
  | blank
  | header (sectionName : Bytes)
  | assignment (key value : Bytes)
  deriving DecidableEq, Repr

namespace Line

/-- The name between the brackets of a section header, of which the first is already read. -/
def readHeader (s : Bytes) : Except LineError Line :=
  match Text.splitFirst? 0x5d s with
  | none           => .error .unclosedSection
  | some (name, _) => .ok (.header (Text.trim name))

/-- A key and its value. -/
def readAssignment (s : Bytes) : Except LineError Line :=
  let (key, value) :=
    match Text.splitFirst? 0x3d s with
    | none              => bareKey s
    | some (key, value) => (Text.trim key, Quoted.unquote (Text.trim value))
  if isValidKey key then .ok (.assignment key value) else .error (.invalidKey key)

/-- What a line says. -/
def read (line : Bytes) : Except LineError Line :=
  if maxLength < line.length then .error .tooLong
  else
    match Text.trim line with
    | []        => .ok .blank
    | c :: rest =>
      if c = 0x23 ∨ c = 0x3b then .ok .blank
      else if c = 0x5b then readHeader rest
      else readAssignment (c :: rest)

end Line

/-- What one argument says. -/
inductive Argument where
  | positional (text : Bytes)
  | option (key value : Bytes)
  deriving DecidableEq, Repr

namespace Argument

/-- A key and its value, without the dashes. -/
def readOption (s : Bytes) : Option Argument :=
  let (key, value) := (Text.splitFirst? 0x3d s).getD (bareKey s)
  if isValidKey key then some (.option key value) else none

/-- What an argument says; none if its key is not valid. A single dash is no option. -/
def read : Bytes → Option Argument
  | 0x2d :: 0x2d :: rest => readOption rest
  | 0x2d :: c :: rest    => readOption (c :: rest)
  | s                    => some (.positional s)

end Argument

namespace Settings

/-- Reads lines, the first of which has the given number, inside a section. -/
def readLines (source : Bytes) (number : Nat) (sectionName : Bytes) (s : Settings) :
    List Bytes → Settings × Option ReadError
  | []           => (s, none)
  | line :: rest =>
    match Line.read line with
    | .error cause => (s, some (.badLine cause source number))
    | .ok .blank => readLines source (number + 1) sectionName s rest
    | .ok (.header name) => readLines source (number + 1) name s rest
    | .ok (.assignment key value) =>
      readLines source (number + 1) sectionName
        (s.store ⟨sectionName, key, value, .line source number⟩) rest

/-- Reads a text, which begins outside any section. -/
def readText (s : Settings) (source content : Bytes) : Settings × Option ReadError :=
  readLines source 1 [] s (Text.lines content)

/-- The name of a text that has none. -/
def unnamedText : Bytes := Bytes.ascii "<string>"

/-- Reads a file with the given content, absent if it cannot be opened. -/
def readFrom (s : Settings) (path : Bytes) : Option Bytes → Settings × Option ReadError
  | none         => (s, some (.cannotOpen path))
  | some content =>
    if maxFileSize < content.length then (s, some (.tooLarge path)) else s.readText path content

/-- Reads further arguments, the first of which has the given index. -/
def readMoreArguments (index : Nat) (s : Settings) : List Bytes → Settings × Option ReadError
  | []               => (s, none)
  | argument :: rest =>
    match Argument.read argument with
    | none                     => (s, some (.badOption argument index))
    | some (.positional text)  =>
      readMoreArguments (index + 1) { s with positional := s.positional ++ [text] } rest
    | some (.option key value) =>
      readMoreArguments (index + 1) (s.store ⟨[], key, value, .commandLine⟩) rest

/-- Reads the arguments that follow the name of a program; each ends at its first zero octet. The
positional arguments of an earlier reading are forgotten. -/
def readArguments (s : Settings) (arguments : List Bytes) : Settings × Option ReadError :=
  readMoreArguments 1 { s with positional := [] } (arguments.map Bytes.upToNul)

end Settings

end CurveKeys
