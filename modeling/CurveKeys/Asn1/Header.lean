import CurveKeys.Bytes.BigEndian

/-!
# Asn1 — headers

The identifier and length octets in front of a value, as the basic encoding rules allow them: tag
numbers in one or several octets, lengths short, long (with or without leading zeros) or indefinite.

* `Header.read?`: reads a header and checks that the value it announces is there.
* `length_of_read?`: a header takes at least two octets.
-/

namespace CurveKeys.Asn1

/-- The four classes of tags. -/
inductive TagClass where
  | universal
  | application
  | contextSpecific
  | privateUse
  deriving DecidableEq, Repr

namespace TagClass

/-- The class in the two high bits of an identifier octet. -/
def ofIdentifier (c : UInt8) : TagClass :=
  if c < 0x40 then universal
  else if c < 0x80 then application
  else if c < 0xc0 then contextSpecific
  else privateUse

end TagClass

/-- What the octets in front of a value say; the length is absent when it is indefinite. -/
structure Header where
  tagClass : TagClass
  constructed : Bool
  tag : Nat
  length : Option Nat
  deriving DecidableEq, Repr

namespace Header

/-- Reads the groups of seven bits of a large tag number, of which `acc` has been read. A number
that would not fit in 31 bits is refused. -/
def readTagGroups (acc : Nat) : Bytes → Option (Nat × Bytes)
  | []        => none
  | c :: rest =>
    let next := acc * 128 + c.toNat % 128
    if c < 0x80 then some (next, rest)
    else if 0xffffff < next then none
    else readTagGroups next rest

/-- The tag number that begins in an identifier octet. -/
def readTag (identifier : UInt8) (rest : Bytes) : Option (Nat × Bytes) :=
  if identifier.toNat % 32 = 31 then readTagGroups 0 rest else some (identifier.toNat % 32, rest)

/-- The least length that is refused, `2⁶³`. -/
def tooLong : Nat := 0x8000000000000000

/-- Reads length octets; `none` inside stands for the indefinite length. A long length needs one
octet beyond its own, has at most eight octets after its zeros, and stays below `2⁶³`. -/
def readLength : Bytes → Option (Option Nat × Bytes)
  | []        => none
  | c :: rest =>
    if c < 0x80 then some (some c.toNat, rest)
    else if c = 0x80 then some (none, rest)
    else
      let count := c.toNat % 128
      let octets := (rest.take count).dropWhile (· == 0)
      if rest.length < count + 1 ∨ 8 < octets.length ∨ tooLong ≤ BigEndian.value octets then none
      else some (some (BigEndian.value octets), rest.drop count)

/-- Whether the value of a header is among the octets after it: a definite length must not exceed
them, and only a constructed value may be indefinite. -/
def fits (header : Header) (body : Bytes) : Bool :=
  match header.length with
  | some n => n ≤ body.length
  | none   => header.constructed

/-- Reads a header off the front of a string, and gives the octets after it. -/
def read? : Bytes → Option (Header × Bytes)
  | [] => none
  | identifier :: rest =>
    match readTag identifier rest with
    | none => none
    | some (tag, rest) =>
      match readLength rest with
      | none => none
      | some (length, body) =>
        let header : Header :=
          ⟨.ofIdentifier identifier, identifier.toNat / 32 % 2 = 1, tag, length⟩
        if header.fits body then some (header, body) else none

theorem length_of_readTagGroups {acc tag : Nat} {s rest : Bytes}
    (h : readTagGroups acc s = some (tag, rest)) : rest.length < s.length := by
  induction s generalizing acc with
  | nil => simp [readTagGroups] at h
  | cons c s ih =>
    simp only [readTagGroups] at h
    split at h
    · simp only [Option.some.injEq, Prod.mk.injEq] at h
      simp [← h.2]
    · split at h
      · simp at h
      · have := ih h
        simp only [List.length_cons]
        omega

theorem length_of_readTag {identifier : UInt8} {tag : Nat} {s rest : Bytes}
    (h : readTag identifier s = some (tag, rest)) : rest.length ≤ s.length := by
  simp only [readTag] at h
  split at h
  · exact Nat.le_of_lt (length_of_readTagGroups h)
  · simp only [Option.some.injEq, Prod.mk.injEq] at h
    simp [← h.2]

theorem length_of_readLength {length : Option Nat} {s rest : Bytes}
    (h : readLength s = some (length, rest)) : rest.length < s.length := by
  cases s with
  | nil => simp [readLength] at h
  | cons c s =>
    simp only [readLength] at h
    split at h
    · simp only [Option.some.injEq, Prod.mk.injEq] at h
      simp [← h.2]
    · split at h
      · simp only [Option.some.injEq, Prod.mk.injEq] at h
        simp [← h.2]
      · split at h
        · simp at h
        · simp only [Option.some.injEq, Prod.mk.injEq] at h
          simp only [← h.2, List.length_drop, List.length_cons]
          omega

/-- A header takes at least two octets. -/
theorem length_of_read? {header : Header} {s body : Bytes} (h : read? s = some (header, body)) :
    body.length + 2 ≤ s.length := by
  cases s with
  | nil => simp [read?] at h
  | cons identifier s =>
    simp only [read?] at h
    split at h
    · simp at h
    · rename_i hTag
      split at h
      · simp at h
      · rename_i hLength
        split at h
        · simp only [Option.some.injEq, Prod.mk.injEq] at h
          have h₁ := length_of_readTag hTag
          have h₂ := length_of_readLength hLength
          simp only [← h.2, List.length_cons]
          omega
        · simp at h

end Header

end CurveKeys.Asn1
