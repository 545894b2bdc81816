import CurveKeys.Journal.Entry

/-!
# Journal — sinks

Where entries go: to the terminal, to the end of a file, or to whoever asked to be called. A sink
drops entries below its own level.

* `Sink.write`: what an entry becomes in a sink.
-/

namespace CurveKeys

/-- A place for entries. -/
inductive Sink where
  | console (level : Level) (format : LineFormat) (colours : Bool)
  | file (level : Level) (path : Bytes) (isOpen : Bool)
  | callback (level : Level) (present : Bool)
  deriving DecidableEq

/-- What a sink makes of an entry. -/
inductive Output where
  | terminal (text : Bytes)
  | appended (path text : Bytes)
  | handed (entry : Entry)
  deriving DecidableEq

namespace Level

/-- The control sequence for the colour of a level. -/
def colour (l : Level) : Bytes :=
  match l.rank with
  | 0 => 0x1b :: Bytes.ascii "[90m"
  | 1 => 0x1b :: Bytes.ascii "[36m"
  | 2 => 0x1b :: Bytes.ascii "[32m"
  | 3 => 0x1b :: Bytes.ascii "[33m"
  | 4 => 0x1b :: Bytes.ascii "[31m"
  | 5 => 0x1b :: Bytes.ascii "[35;1m"
  | _ => []

end Level

namespace Sink

/-- The level below which entries are dropped. -/
def level : Sink → Level
  | console level _ _ => level
  | file level _ _    => level
  | callback level _  => level

/-- The same sink with another level. -/
def withLevel (level : Level) : Sink → Sink
  | console _ format colours => console level format colours
  | file _ path isOpen       => file level path isOpen
  | callback _ present       => callback level present

/-- The control sequence that ends a colour. -/
def plain : Bytes := 0x1b :: Bytes.ascii "[0m"

/-- A line on the console. It ends at the first zero octet, and is coloured on a terminal only. -/
def consoleLine (coloured : Bool) (e : Entry) (format : LineFormat) : Bytes :=
  let line := Bytes.upToNul (e.text format)
  (if coloured then e.level.colour ++ line ++ plain else line) ++ [Text.newline]

/-- What an entry becomes; `terminal` tells whether the console is one. -/
def write (terminal : Bool) (sink : Sink) (e : Entry) : Option Output :=
  if sink.level ≤ e.level then
    match sink with
    | console _ format colours => some (.terminal (consoleLine (colours && terminal) e format))
    | file _ path isOpen       =>
      if isOpen then some (.appended path (e.text .full ++ [Text.newline])) else none
    | callback _ present       => if present then some (.handed e) else none
  else none

end Sink

end CurveKeys
