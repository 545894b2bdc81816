import CurveKeys.Keys.Private
import CurveKeys.Settings.Store

/-!
# Settings — looking up

Values are texts; asked for as a number or as a truth value, one that does not read as such counts
as absent.
-/

namespace CurveKeys

/-- The truth value that a text stands for, in any case. -/
def readBool? (s : Bytes) : Option Bool :=
  let word := Text.lower s
  if (["true", "yes", "on", "1"].map Bytes.ascii).contains word then some true
  else if (["false", "no", "off", "0"].map Bytes.ascii).contains word then some false
  else none

/-- The number that a text stands for, with nothing but blanks after it. -/
def readInt? (s : Bytes) : Option Int :=
  match Decimal.readInt64? s with
  | some (z, rest) => if (Text.trim rest).isEmpty then some z else none
  | none           => none

namespace Settings

def string? (s : Settings) (key : Bytes) (sectionName : Bytes := []) : Option Bytes :=
  (s.find? key sectionName).map Setting.value

def int? (s : Settings) (key : Bytes) (sectionName : Bytes := []) : Option Int :=
  (s.string? key sectionName).bind readInt?

def bool? (s : Settings) (key : Bytes) (sectionName : Bytes := []) : Option Bool :=
  (s.string? key sectionName).bind readBool?

/-- A switch of the program, in no section. -/
def switch (s : Settings) (key : String) (default : Bool) : Bool :=
  (s.bool? (Bytes.ascii key)).getD default

/-- The policy that the switches `strictsentinel` and `strict` ask for. -/
def policy (s : Settings) : Policy :=
  ⟨s.switch "strictsentinel" false || s.switch "strict" false⟩

end Settings

end CurveKeys
