import CurveKeys.Bytes.Text

/-!
# Journal — levels

Levels are ranks on the integers: the higher, the more severe. Seven ranks have names; any other
rank still compares, but has no name of its own. `off` is a threshold above all that is ever
written.
-/

namespace CurveKeys

/-- How severe a message is, or a threshold for messages. -/
structure Level where
  rank : Int
  deriving DecidableEq, Repr

namespace Level

def trace : Level := ⟨0⟩
def debug : Level := ⟨1⟩
def info  : Level := ⟨2⟩
def warn  : Level := ⟨3⟩
def error : Level := ⟨4⟩
def fatal : Level := ⟨5⟩
def off   : Level := ⟨6⟩

instance : LE Level := ⟨fun a b => a.rank ≤ b.rank⟩

instance (a b : Level) : Decidable (a ≤ b) := inferInstanceAs (Decidable (a.rank ≤ b.rank))

/-- The name printed in a line. -/
def name (l : Level) : Bytes :=
  Bytes.ascii <| match l.rank with
    | 0 => "TRACE"
    | 1 => "DEBUG"
    | 2 => "INFO"
    | 3 => "WARN"
    | 4 => "ERROR"
    | 5 => "FATAL"
    | 6 => "OFF"
    | _ => "UNKNOWN"

/-- The names a level can be asked for by. -/
def names : List (Bytes × Level) :=
  [("trace", trace), ("debug", debug), ("info", info), ("warn", warn), ("warning", warn),
   ("error", error), ("fatal", fatal), ("off", off), ("none", off)].map
    fun (s, l) => (Bytes.ascii s, l)

/-- The level of a name, in any case. -/
def ofName? (s : Bytes) : Option Level := names.lookup (Text.lower s)

end Level

end CurveKeys
