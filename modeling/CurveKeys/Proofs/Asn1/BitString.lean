import CurveKeys.Proofs.Asn1.Value

/-!
# Asn1 — bit strings in segments

A bit string of whole octets is in one segment or in several.  Each segment is a value of its own,
with an octet in front that counts its unused bits, of which there are none; what the bit string
stands for is what is behind these octets, one segment after the other.  The reader of values joins
the segments with the octets in them.

* `Values.pieces`: what the values of pieces join to.
* `BitString.carries`: what the reader finds in a bit string of given segments.
* `append_flatten_inj_iff`: it is what the bit string stands for, if there is one segment.
* `bitString_inSegments`: a bit string in given segments.
-/

namespace CurveKeys.Asn1

open Header

/-- The values of the pieces of a string, in order, however they are nested. -/
inductive Values : Nat → Bool → Bytes → List Bytes → Prop where
  | done {depth : Nat} : Values depth false [] []
  | mark {depth : Nat} : Values depth true [0, 0] []
  | piece {depth : Nat} {marked : Bool} {header : Header} {octets value s : Bytes}
      {values : List Bytes} :
      Announces .basic octets header (value ++ s) → octets ≠ [0, 0] →
      header.constructed = false → header.length = some value.length →
      Values depth marked s values → Values depth marked (octets ++ (value ++ s)) (value :: values)
  | nested {depth : Nat} {marked : Bool} {header : Header} {octets inner s : Bytes}
      {first values : List Bytes} :
      Announces .basic octets header (inner ++ s) →
      header.constructed = true → header.length = some inner.length →
      Values depth false inner first → Values (depth + 1) marked s values →
      Values (depth + 1) marked (octets ++ (inner ++ s)) (first ++ values)
  | nestedMarked {depth : Nat} {marked : Bool} {header : Header} {octets inner s : Bytes}
      {first values : List Bytes} :
      Announces .basic octets header (inner ++ s) →
      header.constructed = true → header.length = none →
      Values depth true inner first → Values (depth + 1) marked s values →
      Values (depth + 1) marked (octets ++ (inner ++ s)) (first ++ values)

/-- A segment as a value: no bits of it are unused. -/
def segmentValue (segment : Bytes) : Bytes := 0 :: segment

/-- The octets of a bit string in segments. -/
inductive BitString : Bytes → List Bytes → Prop where
  | whole {octets segment : Bytes} :
      Announces .basic octets
        ⟨.universal, false, Tag.bitString.number, some (segmentValue segment).length⟩
        (segmentValue segment) →
      BitString (octets ++ segmentValue segment) [segment]
  | inPieces {octets s : Bytes} {segments : List Bytes} :
      Announces .basic octets ⟨.universal, true, Tag.bitString.number, some s.length⟩ s →
      Values maxStringDepth false s (segments.map segmentValue) → BitString (octets ++ s) segments
  | marked {octets s : Bytes} {segments : List Bytes} :
      Announces .basic octets ⟨.universal, true, Tag.bitString.number, none⟩ s →
      Values maxStringDepth true s (segments.map segmentValue) → BitString (octets ++ s) segments

variable {depth : Nat} {marked : Bool} {s first : Bytes} {values segments rest : List Bytes}

/-! ### What is joined -/

theorem Values.pieces (h : Values depth marked s values) :
    Pieces depth marked s values.flatten := by
  induction h with
  | done => exact .done
  | mark => exact .mark
  | piece ha hm hc hn _ ih => exact .piece ha hm hc hn ih
  | nested ha hc hn _ _ ih₁ ih₂ =>
      rw [List.flatten_append]
      exact .nested ha hc hn ih₁ ih₂
  | nestedMarked ha hc hn _ _ ih₁ ih₂ =>
      rw [List.flatten_append]
      exact .nestedMarked ha hc hn ih₁ ih₂

/-- **What is found in a bit string**: its segments, each behind the octet that counts its unused
bits. -/
theorem BitString.carries (h : BitString s segments) :
    Carries .basic Tag.bitString.number s (segments.map segmentValue).flatten := by
  have htag : Tag.bitString.number ∉ primitiveOnly := by decide
  cases h with
  | whole ha =>
      rw [List.map_singleton, List.flatten_singleton]
      exact .whole ha
  | inPieces ha hv => exact .pieces htag ha hv.pieces
  | marked ha hv => exact .marked htag ha hv.pieces

/-- The octets that count unused bits take their places. -/
theorem length_flatten_segmentValue (segments : List Bytes) :
    (segments.map segmentValue).flatten.length = segments.flatten.length + segments.length := by
  induction segments with
  | nil => rfl
  | cons first rest ih =>
      simp only [List.map_cons, List.flatten_cons, List.length_append, List.length_cons,
        segmentValue, ih]
      omega

/-- **Behind the first octet** there is nothing but the segments, if there is only one of them. -/
theorem append_flatten_inj_iff :
    first ++ (rest.map segmentValue).flatten = first ++ rest.flatten ↔ rest = [] := by
  rw [List.append_cancel_left_eq]
  refine ⟨fun h => ?_, fun h => by rw [h, List.map_nil]⟩
  have hl := congrArg List.length h
  rw [length_flatten_segmentValue] at hl
  exact List.eq_nil_of_length_eq_zero (Nat.add_eq_left.mp hl)

/-! ### Writing segments -/

/-- A bit string in segments, each written as a bit string. -/
def inSegments (segments : List Bytes) : Bytes :=
  Der.write 0x23 (segments.map Der.bitString).flatten

theorem values_bitString (hs : ∀ segment ∈ segments, segment.length < 2 ^ 62) :
    Values depth false (segments.map Der.bitString).flatten (segments.map segmentValue) := by
  induction segments with
  | nil => exact .done
  | cons first rest ih =>
      obtain ⟨hfirst, hrest⟩ := List.forall_mem_cons.mp hs
      have hl : (segmentValue first).length < 2 ^ 63 := by
        rw [segmentValue, List.length_cons]
        omega
      have hle : (segmentValue first).length ≤
          (segmentValue first ++ (rest.map Der.bitString).flatten).length :=
        (List.sublist_append_left _ _).length_le
      have ha : Announces .basic
          (UInt8.ofNat Tag.bitString.number :: Der.lengthOctets (segmentValue first).length)
          (der (UInt8.ofNat Tag.bitString.number) (segmentValue first).length)
          (segmentValue first ++ (rest.map Der.bitString).flatten) :=
        announces_der (by decide) hl hle
      rw [der_primitive] at ha
      have hv := Values.piece ha nofun rfl rfl (ih hrest)
      rwa [← List.append_assoc] at hv

theorem bitString_inSegments (hs : ∀ segment ∈ segments, segment.length < 2 ^ 62)
    (hl : (segments.map Der.bitString).flatten.length < 2 ^ 63) :
    BitString (inSegments segments) segments := by
  have ha : Announces .basic (0x23 :: Der.lengthOctets (segments.map Der.bitString).flatten.length)
      (der 0x23 (segments.map Der.bitString).flatten.length)
      (segments.map Der.bitString).flatten := announces_der (by decide) hl le_rfl
  exact .inPieces ha (values_bitString hs)

end CurveKeys.Asn1
