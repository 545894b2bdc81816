import CurveKeys.Bytes.Decimal

/-!
# Settings — the store

Settings are values under keys, some of them in named sections. Each remembers where it was set. A
setting that was only assumed as a default gives way to any other, and never replaces one that was
set.

* `Settings.store`: sets or replaces one setting.
* `Settings.dump`: all settings, one after the other, in the order of their full keys.
-/

namespace CurveKeys

/-- Where a setting was set. -/
inductive Origin where
  | default
  | assigned
  | commandLine
  | line (source : Bytes) (number : Nat)
  deriving DecidableEq, Repr

namespace Origin

/-- The name of the place. -/
def source : Origin → Bytes
  | default       => Bytes.ascii "<default>"
  | assigned      => Bytes.ascii "<set>"
  | commandLine   => Bytes.ascii "<command-line>"
  | line source _ => source

/-- The line of the text, zero where there are no lines. -/
def lineNumber : Origin → Nat
  | line _ number => number
  | _             => 0

def isDefault (o : Origin) : Bool := o = default

/-- The remark that names the place behind a setting. -/
def remark : Origin → Bytes
  | default            => Bytes.ascii "  # default"
  | line source number =>
    Bytes.ascii "  # " ++ source ++ Bytes.ascii ":" ++ Decimal.ofNat number
  | o                  => Bytes.ascii "  # " ++ o.source

end Origin

/-- A value under a key, in a section unless that is empty. -/
structure Setting where
  sectionName : Bytes
  key : Bytes
  value : Bytes
  origin : Origin
  deriving DecidableEq, Repr

/-- The settings by full key, in increasing order, and the arguments that are no options. -/
structure Settings where
  entries : List (Bytes × Setting)
  positional : List Bytes
  deriving DecidableEq, Repr

namespace Settings

/-- No settings. -/
def empty : Settings := ⟨[], []⟩

/-- The key with its section in front, if it is in one. -/
def fullKey (sectionName key : Bytes) : Bytes :=
  if sectionName.isEmpty then key else sectionName ++ 0x3a :: key

/-- Puts a setting at its place in the order, over one with the same full key. -/
def insert (name : Bytes) (setting : Setting) : List (Bytes × Setting) → List (Bytes × Setting)
  | []            => [(name, setting)]
  | entry :: rest =>
    if name = entry.1 then (name, setting) :: rest
    else if name < entry.1 then (name, setting) :: entry :: rest
    else entry :: insert name setting rest

/-- The setting under a key. -/
def find? (s : Settings) (key sectionName : Bytes) : Option Setting :=
  s.entries.lookup (fullKey sectionName key)

/-- Sets one setting; a default leaves alone what was set. -/
def store (s : Settings) (setting : Setting) : Settings :=
  let kept := (s.find? setting.key setting.sectionName).any fun old => !old.origin.isDefault
  if setting.origin.isDefault && kept then s
  else { s with entries := insert (fullKey setting.sectionName setting.key) setting s.entries }

def set (s : Settings) (key value sectionName : Bytes) : Settings :=
  s.store ⟨sectionName, key, value, .assigned⟩

def setDefault (s : Settings) (key value sectionName : Bytes) : Settings :=
  s.store ⟨sectionName, key, value, .default⟩

/-- The number of settings. -/
def size (s : Settings) : Nat := s.entries.length

/-- A setting as it is shown: full key, value and where it was set. -/
def render (entry : Bytes × Setting) : Bytes :=
  entry.1 ++ 0x3d :: entry.2.value ++ entry.2.origin.remark ++ [Text.newline]

/-- All settings, in the order of their full keys. -/
def dump (s : Settings) : Bytes := s.entries.flatMap Settings.render

/-- Adds a name to names in increasing order. -/
def insertName (name : Bytes) : List Bytes → List Bytes
  | []            => [name]
  | first :: rest =>
    if name = first then first :: rest
    else if name < first then name :: first :: rest
    else first :: insertName name rest

/-- The sections that hold a setting, in increasing order. -/
def sections (s : Settings) : List Bytes :=
  s.entries.foldl
    (fun names entry =>
      if entry.2.sectionName.isEmpty then names else insertName entry.2.sectionName names)
    []

end Settings

end CurveKeys
