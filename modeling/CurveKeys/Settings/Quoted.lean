import CurveKeys.Bytes.Text

/-!
# Settings — quoted values

A value may stand in double quotes, inside which a backslash in front of `n`, `t`, a backslash or a
double quote makes one octet of the two, or in single quotes, inside which nothing is special. Any
other value stands for itself.

* `Quoted.unquote`: the value that a text stands for.
* `Quoted.quote`: a text, on one line, that stands for a given value.
-/

namespace CurveKeys.Quoted

/-- What a backslash and the given octet stand for. -/
def escaped? (c : UInt8) : Option UInt8 :=
  if c = 0x6e then some 0x0a
  else if c = 0x74 then some 0x09
  else if c = 0x5c then some 0x5c
  else if c = 0x22 then some 0x22
  else none

/-- Resolves backslashes; one in front of any other octet, or at the end, stands for itself. -/
def unescape : Bytes → Bytes
  | 0x5c :: c :: rest =>
    match escaped? c with
    | some e => e :: unescape rest
    | none   => 0x5c :: unescape (c :: rest)
  | c :: rest => c :: unescape rest
  | []        => []

/-- The value a text stands for. -/
def unquote (s : Bytes) : Bytes :=
  match s with
  | first :: second :: rest =>
    let inner := (second :: rest).dropLast
    if (second :: rest).getLast? ≠ some first then s
    else if first = 0x22 then unescape inner
    else if first = 0x27 then inner
    else s
  | _ => s

/-- The octet that follows the backslash when an octet must be written with one. -/
def escape? (c : UInt8) : Option UInt8 :=
  if c = 0x0a then some 0x6e
  else if c = 0x09 then some 0x74
  else if c = 0x5c ∨ c = 0x22 then some c
  else none

/-- Writes backslashes where they are needed inside double quotes. -/
def escape (value : Bytes) : Bytes :=
  value.flatMap fun (c : UInt8) =>
    match escape? c with
    | some e => [0x5c, e]
    | none   => [c]

/-- A value in double quotes. -/
def quote (value : Bytes) : Bytes := 0x22 :: (escape value ++ [0x22])

end CurveKeys.Quoted
