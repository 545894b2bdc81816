import CurveKeys.Asn1.Header

/-!
# Asn1 — elements of a sequence

Reads a sequence into its elements without knowing what they should be. Values of universal types
are reduced to their content octets, strings in pieces included, and checked against the rules of
their type; everything else is kept as it stands. Contents are kept whole: what becomes of one of
`2 ^ 31 - 1` octets or more, whose length is out of the range of the field that holds it, is left
open.

* `readElement`: one element off the front of a string.
* `readSequence`: a whole sequence, and what follows it.
* `readBitString`: one bit string, and what follows it.
-/

namespace CurveKeys.Asn1

/-- The universal tag numbers that are told apart. -/
inductive Tag where
  | boolean | integer | bitString | octetString | null | objectId | enumerated
  | sequence | set | universalString | bmpString
  deriving DecidableEq

/-- The number of a universal tag. -/
def Tag.number : Tag → Nat
  | boolean         => 1
  | integer         => 2
  | bitString       => 3
  | octetString     => 4
  | null            => 5
  | objectId        => 6
  | enumerated      => 10
  | sequence        => 16
  | set             => 17
  | universalString => 28
  | bmpString       => 30

/-- An element of a sequence: the content of a universal type, the whole encoding of a nested
sequence or set, or the whole encoding of a value with a tag of another class. -/
inductive Element where
  | universal (tag : Nat) (content : Bytes)
  | collection (encoding : Bytes)
  | tagged (encoding : Bytes)
  deriving DecidableEq

/-- The octets after the end mark of an indefinite value, inside which `more` further ones are
open. -/
def skipToEnd (more : Nat) (s : Bytes) : Option Bytes :=
  match s with
  | 0 :: 0 :: rest =>
    match more with
    | 0        => some rest
    | more + 1 => skipToEnd more rest
  | s =>
    match _h : Header.read? s with
    | none => none
    | some (header, body) =>
      match header.length with
      | none   => skipToEnd (more + 1) body
      | some n => skipToEnd more (body.drop n)
termination_by s.length
decreasing_by
  · simp only [List.length_cons]; omega
  · have := Header.length_of_read? _h; omega
  · have := Header.length_of_read? _h; simp only [List.length_drop]; omega

theorem length_of_skipToEnd {more : Nat} {s rest : Bytes} (h : skipToEnd more s = some rest) :
    rest.length < s.length := by
  fun_induction skipToEnd more s with
  | case1 after =>
    simp only [Option.some.injEq] at h
    simp only [← h, List.length_cons]
    omega
  | case2 after more ih =>
    have := ih h
    simp only [List.length_cons]
    omega
  | case3 => simp at h
  | case4 more s _ header body read _ ih =>
    have := ih h
    have := Header.length_of_read? read
    omega
  | case5 more s _ header body read n _ ih =>
    have le := ih h
    have := Header.length_of_read? read
    rw [List.length_drop] at le
    omega

/-- The pieces of a string in pieces, joined, and the octets after them. The pieces end with the
string, or at an end mark if `marked`. They may have any tag, and may themselves be in pieces, at
most `depth` levels deep. -/
def gather (depth : Nat) (marked : Bool) (s : Bytes) :
    Option (Bytes × { rest : Bytes // rest.length ≤ s.length }) :=
  match s with
  | [] => if marked then none else some ([], ⟨[], Nat.le_refl _⟩)
  | 0 :: 0 :: rest =>
    if marked then some ([], ⟨rest, by simp only [List.length_cons]; omega⟩) else none
  | s =>
    match h : Header.read? s with
    | none => none
    | some (header, body) =>
      have shorter := Header.length_of_read? h
      match header.constructed, header.length with
      | false, none => none
      | false, some n =>
        match gather depth marked (body.drop n) with
        | none => none
        | some (pieces, ⟨rest, le⟩) =>
          some (body.take n ++ pieces, ⟨rest, by rw [List.length_drop] at le; omega⟩)
      | true, some n =>
        if depth = 0 then none
        else
          match gather (depth - 1) false (body.take n), gather depth marked (body.drop n) with
          | some (inner, _), some (pieces, ⟨rest, le⟩) =>
            some (inner ++ pieces, ⟨rest, by rw [List.length_drop] at le; omega⟩)
          | _, _ => none
      | true, none =>
        if depth = 0 then none
        else
          match gather (depth - 1) true body with
          | none => none
          | some (inner, ⟨after, le⟩) =>
            match gather depth marked after with
            | none => none
            | some (pieces, ⟨rest, le'⟩) => some (inner ++ pieces, ⟨rest, by omega⟩)
termination_by s.length
decreasing_by
  · simp only [List.length_drop]; omega
  · simp only [List.length_take]; omega
  · simp only [List.length_drop]; omega
  · omega
  · omega

/-- How deep the pieces of a string may be nested. -/
def maxStringDepth : Nat := 5

/-- An integer has at least one octet, and its first nine bits are not all alike. The octet `ff` in
front of zeros only is no padding. -/
def integerContent : Bytes → Bool
  | []             => false
  | [_]            => true
  | x :: y :: rest =>
    !(x == 0 && y < 0x80 || x == 0xff && (y :: rest).any (· != 0) && 0x80 ≤ y)

/-- No arc of an object identifier begins with an octet `80`; `inArc` tells whether one is under
way. -/
def arcsContent (inArc : Bool) : Bytes → Bool
  | []        => !inArc
  | c :: rest => (inArc || c != 0x80) && arcsContent (0x80 ≤ c) rest

/-- The rule on the content octets of a universal type. -/
def validContent (tag : Nat) (content : Bytes) : Bool :=
  if tag = Tag.boolean.number then content.length = 1
  else if tag = Tag.null.number then content.isEmpty
  else if tag = Tag.integer.number ∨ tag = Tag.enumerated.number then integerContent content
  else if tag = Tag.objectId.number then !content.isEmpty && arcsContent false content
  else if tag = Tag.bitString.number then content.head?.any (· ≤ 7)
  else if tag = Tag.bmpString.number then content.length % 2 = 0
  else if tag = Tag.universalString.number then content.length % 4 = 0
  else true

/-- The types whose values are never in pieces. -/
def primitiveOnly : List Nat :=
  [Tag.boolean, Tag.integer, Tag.null, Tag.objectId, Tag.enumerated].map Tag.number

/-- The content octets of a value of a universal type, and the octets after it. -/
def readContent (header : Header) (body : Bytes) : Option (Bytes × Bytes) :=
  let found :=
    if header.constructed then
      if header.tag ∈ primitiveOnly then none
      else
        match header.length with
        | some n =>
          (gather maxStringDepth false (body.take n)).map fun (content, _) => (content, body.drop n)
        | none   => (gather maxStringDepth true body).map fun (content, rest) => (content, rest.val)
    else
      header.length.map fun n => (body.take n, body.drop n)
  found.filter fun (content, _) => validContent header.tag content

/-- The octets after a value, whatever is in it. -/
def skipValue (header : Header) (body : Bytes) : Option Bytes :=
  match header.length with
  | some n => some (body.drop n)
  | none   => skipToEnd 0 body

/-- One element off the front of a string. -/
def readElement (s : Bytes) : Option (Element × Bytes) :=
  match Header.read? s with
  | none => none
  | some (header, body) =>
    if header.tagClass ≠ .universal then
      (skipValue header body).map fun rest => (.tagged (s.take (s.length - rest.length)), rest)
    else if header.tag = Tag.sequence.number ∨ header.tag = Tag.set.number then
      if header.constructed then
        (skipValue header body).map fun rest =>
          (.collection (s.take (s.length - rest.length)), rest)
      else none
    else
      (readContent header body).map fun (content, rest) => (.universal header.tag content, rest)

theorem length_of_readContent {header : Header} {s body content rest : Bytes}
    (read : Header.read? s = some (header, body))
    (h : readContent header body = some (content, rest)) : rest.length < s.length := by
  have shorter := Header.length_of_read? read
  simp only [readContent, Option.filter_eq_some_iff] at h
  obtain ⟨h, -⟩ := h
  split at h
  · split at h
    · simp at h
    · split at h
      · simp only [Option.map_eq_some_iff, Prod.mk.injEq] at h
        obtain ⟨_, _, _, rfl⟩ := h
        simp only [List.length_drop]
        omega
      · simp only [Option.map_eq_some_iff, Prod.mk.injEq] at h
        obtain ⟨⟨_, after⟩, _, _, rfl⟩ := h
        have := after.property
        simp only at this ⊢
        omega
  · simp only [Option.map_eq_some_iff, Prod.mk.injEq] at h
    obtain ⟨_, _, _, rfl⟩ := h
    simp only [List.length_drop]
    omega

theorem length_of_skipValue {header : Header} {s body rest : Bytes}
    (read : Header.read? s = some (header, body)) (h : skipValue header body = some rest) :
    rest.length < s.length := by
  have shorter := Header.length_of_read? read
  simp only [skipValue] at h
  split at h
  · simp only [Option.some.injEq] at h
    simp only [← h, List.length_drop]
    omega
  · have := length_of_skipToEnd h
    omega

/-- An element takes at least one octet. -/
theorem length_of_readElement {s rest : Bytes} {element : Element}
    (h : readElement s = some (element, rest)) : rest.length < s.length := by
  simp only [readElement] at h
  split at h
  · simp at h
  · rename_i read
    split at h
    · simp only [Option.map_eq_some_iff, Prod.mk.injEq] at h
      obtain ⟨_, skip, -, rfl⟩ := h
      exact length_of_skipValue read skip
    · split at h
      · split at h
        · simp only [Option.map_eq_some_iff, Prod.mk.injEq] at h
          obtain ⟨_, skip, -, rfl⟩ := h
          exact length_of_skipValue read skip
        · simp at h
      · simp only [Option.map_eq_some_iff, Prod.mk.injEq] at h
        obtain ⟨⟨_, _⟩, content, -, rfl⟩ := h
        exact length_of_readContent read content

/-- All elements of a string, which end with the string, or at an end mark if `marked`. -/
def readElements (marked : Bool) (s : Bytes) : Option (List Element × Bytes) :=
  match s with
  | [] => if marked then none else some ([], [])
  | 0 :: 0 :: rest => if marked then some ([], rest) else none
  | s =>
    match _h : readElement s with
    | none => none
    | some (element, rest) =>
      (readElements marked rest).map fun (elements, after) => (element :: elements, after)
termination_by s.length
decreasing_by exact length_of_readElement _h

/-- The elements of the sequence at the front of a string, and the octets after it. The constructed
bit is not looked at. -/
def readSequence (s : Bytes) : Option (List Element × Bytes) :=
  match Header.read? s with
  | none => none
  | some (header, body) =>
    if header.tagClass = .universal ∧ header.tag = Tag.sequence.number then
      match header.length with
      | some n =>
        (readElements false (body.take n)).map fun (elements, _) => (elements, body.drop n)
      | none   => readElements true body
    else none

/-- The content octets of the bit string at the front of a string, and the octets after it. -/
def readBitString (s : Bytes) : Option (Bytes × Bytes) :=
  match Header.read? s with
  | none => none
  | some (header, body) =>
    if header.tagClass = .universal ∧ header.tag = Tag.bitString.number then
      readContent header body
    else none

end CurveKeys.Asn1
