import CurveKeys.Journal.Calendar
import CurveKeys.Journal.Note

/-!
# Journal — entries

An entry is a note with the moment at which it was made, and a line of text for whoever reads it.
-/

namespace CurveKeys

/-- A note and its moment, in milliseconds since the beginning of 1970. -/
structure Entry where
  level : Level
  category : Bytes
  message : Bytes
  file : Bytes
  line : Int
  time : Int
  deriving DecidableEq

/-- The entry of a note. -/
def Note.toEntry (note : Note) (time : Int) : Entry :=
  ⟨note.level, note.category, note.message, note.file, note.line, time⟩

/-- What is printed in front of a message. -/
structure LineFormat where
  timestamp : Bool := true
  level : Bool := true
  category : Bool := true
  location : Bool := false
  deriving DecidableEq, Repr

namespace LineFormat

/-- All there is. -/
def full : LineFormat := { location := true }

end LineFormat

/-- The part of a path after its last slash or backslash. -/
def baseName (path : Bytes) : Bytes :=
  (path.reverse.takeWhile fun c => c != 0x2f && c != 0x5c).reverse

namespace Entry

/-- A word in brackets with a space after it. -/
def tag (word : Bytes) : Bytes := 0x5b :: word ++ Bytes.ascii "] "

/-- The line of an entry. The general category has no tag, and an entry from nowhere no place. -/
def text (e : Entry) (format : LineFormat) : Bytes :=
  (if format.timestamp then Timestamp.text e.time ++ Bytes.ascii " " else [])
    ++ (if format.level then tag e.level.name else [])
    ++ (if format.category && !e.category.isEmpty && e.category != Category.general.name
        then tag e.category else [])
    ++ (if format.location && !e.file.isEmpty
        then baseName e.file ++ 0x3a :: Decimal.ofInt e.line ++ Bytes.ascii " " else [])
    ++ e.message

end Entry

end CurveKeys
