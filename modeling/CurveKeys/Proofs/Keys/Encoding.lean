import CurveKeys.Keys.Public
import CurveKeys.Proofs.Bytes.BigEndian
import CurveKeys.Proofs.Curve.SquareRoot

/-!
# Keys — the forms of a point

A public key lies on the curve when its coordinates are below the order of the field and solve the
equation (`PublicKey.OnCurve`).  Reading accepts the encodings of the keys on the curve and nothing
else, so each of them has one encoding in either form.

* `PublicKey.parse_eq_ok_iff`: what is read, and as what.
* `PublicKey.compressedForm_iff`, `PublicKey.uncompressedForm_iff`: the octets that encode a key on
  the curve, by what their numbers are.
* `PublicKey.parse_of_unsupported`, `PublicKey.parse_eq_error`: why nothing is read.
* `PublicKey.decode_outcome`: the three outcomes, and what is read.
-/

namespace CurveKeys

open Curve

/-! ### Coordinates -/

namespace Coordinate

theorem prime_lt : prime < 2 ^ 256 := by decide

theorem pow_coordinateSize : 256 ^ coordinateSize = 2 ^ 256 := by decide

theorem toNat_ofField (a : FieldElement) : (ofField a).toNat = a.val := by
  rw [ofField, BitVec.toNat_ofNat, Nat.mod_eq_of_lt (a.isLt.trans prime_lt)]

theorem field?_eq_some_iff {c : Coordinate} {a : FieldElement} :
    c.field? = some a ↔ c = ofField a := by
  rw [field?]
  split_ifs with h
  · rw [Option.some_inj, ← BitVec.toNat_inj, toNat_ofField, Fin.ext_iff]
  · refine iff_of_false nofun fun e => h ?_
    rw [e, toNat_ofField]
    exact a.isLt

theorem toNat_ofBytes {b : Bytes} (h : b.length = coordinateSize) :
    (ofBytes b).toNat = BigEndian.value b := by
  have hb := BigEndian.value_lt b
  rw [h, pow_coordinateSize] at hb
  rw [ofBytes, BitVec.toNat_ofNat, Nat.mod_eq_of_lt hb]

theorem value_toBytes (c : Coordinate) : BigEndian.value c.toBytes = c.toNat := by
  rw [toBytes, BigEndian.value_encode, pow_coordinateSize, Nat.mod_eq_of_lt c.isLt]

@[simp] theorem ofBytes_toBytes (c : Coordinate) : ofBytes c.toBytes = c := by
  rw [← BitVec.toNat_inj, toNat_ofBytes c.length_toBytes, value_toBytes]

theorem toBytes_ofBytes {b : Bytes} (h : b.length = coordinateSize) : (ofBytes b).toBytes = b := by
  rw [toBytes, toNat_ofBytes h, ← h, BigEndian.encode_value]

theorem toBytes_ofField {a : FieldElement} {b : Bytes} (h : b.length = coordinateSize)
    (hv : a.val = BigEndian.value b) : (ofField a).toBytes = b := by
  rw [toBytes, toNat_ofField, hv, ← h, BigEndian.encode_value]

end Coordinate

namespace PublicKey

/-! ### Keys on the curve -/

/-- Both coordinates are below the order of the field, and they solve the equation. -/
structure OnCurve (k : PublicKey) : Prop where
  x_lt : k.x.toNat < prime
  y_lt : k.y.toNat < prime
  equation : (k.y.toNat : ZMod prime) ^ 2 = (k.x.toNat : ZMod prime) ^ 3 + 7

variable {k l : PublicKey} {b : Bytes}

theorem equation_iff {x y : FieldElement} :
    (y.val : ZMod prime) ^ 2 = (x.val : ZMod prime) ^ 3 + 7 ↔ onCurve x y = true := by
  rw [onCurve_eq_true_iff, ← FieldElement.residue_inj, cubic, FieldElement.residue_mul,
    FieldElement.residue_add, FieldElement.residue_mul, FieldElement.residue_mul,
    FieldElement.residue_ofNat, ← pow_three', ← sq]
  rfl

theorem ofCoordinates_inj {c : Bool} {x y x' y' : FieldElement}
    (h : ofCoordinates c (x, y) = ofCoordinates c (x', y')) : x = x' ∧ y = y' := by
  have hx := congrArg (fun k => k.x.toNat) h
  have hy := congrArg (fun k => k.y.toNat) h
  simp only [ofCoordinates, Coordinate.toNat_ofField] at hx hy
  exact ⟨Fin.ext hx, Fin.ext hy⟩

theorem onCurve_ofCoordinates {c : Bool} {x y : FieldElement} (h : onCurve x y = true) :
    (ofCoordinates c (x, y)).OnCurve := by
  refine ⟨?_, ?_, ?_⟩
  · exact (Coordinate.toNat_ofField x).trans_lt x.isLt
  · exact (Coordinate.toNat_ofField y).trans_lt y.isLt
  · simp only [ofCoordinates, Coordinate.toNat_ofField]
    exact equation_iff.mpr h

/-- **The keys on the curve** are those of the points of the curve. -/
theorem OnCurve.exists_point (h : k.OnCurve) :
    ∃ x y, onCurve x y = true ∧ k = ofCoordinates k.compressed (x, y) := by
  obtain ⟨hx, hy, he⟩ := h
  refine ⟨⟨k.x.toNat, hx⟩, ⟨k.y.toNat, hy⟩, equation_iff.mp he, ?_⟩
  rw [ofCoordinates, Coordinate.ofField, Coordinate.ofField, BitVec.ofNat_toNat, BitVec.ofNat_toNat,
    BitVec.setWidth_eq, BitVec.setWidth_eq]

theorem OnCurve.withCompression (h : k.OnCurve) (c : Bool) : (k.withCompression c).OnCurve :=
  ⟨h.x_lt, h.y_lt, h.equation⟩

/-! ### What an encoding shows -/

theorem length_encode (k : PublicKey) :
    k.encode.length = if k.compressed = true then compressedSize else uncompressedSize := by
  rw [encode, List.length_cons, List.length_append, Coordinate.length_toBytes]
  split_ifs with h
  · rfl
  · rw [Coordinate.length_toBytes]
    rfl

/-- The form of a key shows in the length of its encoding. -/
theorem compressed_eq (k : PublicKey) :
    k.compressed = decide (k.encode.length = compressedSize) := by
  rw [length_encode]
  cases k.compressed <;> rfl

theorem encode_ofCoordinates_true (x y : FieldElement) :
    (ofCoordinates true (x, y)).encode =
      (if y.isOdd = true then 0x03 else 0x02) :: (Coordinate.ofField x).toBytes := by
  rw [encode, tag, ofCoordinates, if_pos rfl, if_pos rfl, Coordinate.toNat_ofField,
    List.append_nil, FieldElement.isOdd]
  simp only [beq_iff_eq]

theorem encode_ofCoordinates_false (x y : FieldElement) :
    (ofCoordinates false (x, y)).encode =
      0x04 :: ((Coordinate.ofField x).toBytes ++ (Coordinate.ofField y).toBytes) := rfl

/-! ### Reading -/

/-- What is lifted is the point of the curve with the first coordinate and the parity. -/
theorem lift?_eq_some_iff {c : Coordinate} {odd : Bool} {x y : FieldElement} :
    lift? c odd = some (x, y) ↔ c = .ofField x ∧ onCurve x y = true ∧ y.isOdd = odd := by
  rw [lift?, ← Coordinate.field?_eq_some_iff]
  simp only [Option.bind_eq_bind, Option.bind_eq_some_iff, Option.some.injEq, Prod.mk.injEq]
  constructor
  · rintro ⟨x, hx, root, hr, rfl, rfl⟩
    have h := onCurve_eq_true_iff.mpr (FieldElement.mul_self_of_sqrt? hr)
    exact ⟨hx, onCurve_parity h odd⟩
  · rintro ⟨hx, h, ho⟩
    obtain ⟨root, hr⟩ := FieldElement.exists_sqrt? (onCurve_eq_true_iff.mp h)
    have hroot := onCurve_eq_true_iff.mpr (FieldElement.mul_self_of_sqrt? hr)
    obtain ⟨h', ho'⟩ := onCurve_parity hroot odd
    exact ⟨x, hx, root, hr, rfl, onCurve_isOdd_inj h' h (ho'.trans ho.symm)⟩

theorem check?_eq_some_iff {c d : Coordinate} {x y : FieldElement} :
    check? c d = some (x, y) ↔ c = .ofField x ∧ d = .ofField y ∧ onCurve x y = true := by
  rw [check?, ← Coordinate.field?_eq_some_iff, ← Coordinate.field?_eq_some_iff]
  simp only [Option.bind_eq_bind, Option.bind_eq_some_iff, Option.ite_none_right_eq_some,
    Option.some.injEq, Prod.mk.injEq]
  constructor
  · rintro ⟨x, hx, y, hy, h, rfl, rfl⟩
    exact ⟨hx, hy, h⟩
  · rintro ⟨hx, hy, h⟩
    exact ⟨x, hx, y, hy, h, rfl, rfl⟩

/-- A tag that is known but not supported. -/
abbrev Unsupported (tag : UInt8) : Prop := tag = 0x00 ∨ tag = 0x06 ∨ tag = 0x07

/-- A form is read where its length is right and its point is found. -/
theorem sized_eq_ok_iff {length size : Nat} {e e' : KeyError} {point : Option PublicKey} :
    (if length ≠ size then .error e else point.elim (.error e') .ok) = Except.ok k ↔
      length = size ∧ point = some k := by
  split_ifs with h
  · exact iff_of_false nofun fun hk => h hk.1
  · cases point with
    | none => exact iff_of_false nofun nofun
    | some l =>
        rw [Option.some_inj, Option.elim_some, Except.ok.injEq]
        exact (and_iff_right (not_not.mp h)).symm

/-- Behind the tag of the compressed form stands a first coordinate. -/
theorem parse_compressed_iff {tag : UInt8} {body : Bytes} (ht : tag = 0x02 ∨ tag = 0x03) :
    parse (tag :: body) = .ok k ↔
      body.length + 1 = compressedSize ∧
        ∃ x y, lift? (.ofBytes body) (tag = 0x03) = some (x, y) ∧ ofCoordinates true (x, y) = k := by
  have hu : ¬ Unsupported tag := by
    rcases ht with rfl | rfl
    · decide
    · decide
  rw [parse, if_neg hu, if_pos ht, sized_eq_ok_iff, Option.map_eq_some_iff, Prod.exists]

/-- Behind the tag of the uncompressed form stand both coordinates. -/
theorem parse_uncompressed_iff {body : Bytes} :
    parse (0x04 :: body) = .ok k ↔
      body.length + 1 = uncompressedSize ∧
        ∃ x y, check? (.ofBytes (body.take 32)) (.ofBytes (body.drop 32)) = some (x, y) ∧
          ofCoordinates false (x, y) = k := by
  rw [parse, if_neg (by decide), if_neg (by decide), if_pos rfl, sized_eq_ok_iff,
    Option.map_eq_some_iff, Prod.exists]

/-- **What is read** are the encodings of the keys on the curve, each as its key. -/
theorem parse_eq_ok_iff : parse b = .ok k ↔ b = k.encode ∧ k.OnCurve := by
  constructor
  · intro h
    rcases b with _ | ⟨tag, body⟩
    · cases h
    by_cases ht : tag = 0x02 ∨ tag = 0x03
    · obtain ⟨hl, x, y, hp, rfl⟩ := (parse_compressed_iff ht).mp h
      obtain ⟨hx, hc, ho⟩ := lift?_eq_some_iff.mp hp
      refine ⟨?_, onCurve_ofCoordinates hc⟩
      rw [encode_ofCoordinates_true, ho, ← hx, Coordinate.toBytes_ofBytes (Nat.succ.inj hl)]
      rcases ht with rfl | rfl
      · rfl
      · rfl
    by_cases h₄ : tag = 0x04
    · subst h₄
      obtain ⟨hl, x, y, hp, rfl⟩ := parse_uncompressed_iff.mp h
      obtain ⟨hx, hy, hc⟩ := check?_eq_some_iff.mp hp
      refine ⟨?_, onCurve_ofCoordinates hc⟩
      rw [encode_ofCoordinates_false, ← hx, ← hy, Coordinate.toBytes_ofBytes,
        Coordinate.toBytes_ofBytes, List.take_append_drop]
      · rw [List.length_drop, Nat.succ.inj hl]
        rfl
      · rw [List.length_take, Nat.succ.inj hl]
        rfl
    · rw [parse, if_neg ht, if_neg h₄] at h
      split_ifs at h
  · rintro ⟨rfl, h⟩
    obtain ⟨x, y, hc, e⟩ := h.exists_point
    generalize k.compressed = c at e
    subst e
    cases c with
    | true =>
        rw [encode_ofCoordinates_true, parse_compressed_iff (by split_ifs <;> simp)]
        refine ⟨congrArg (· + 1) (Coordinate.length_toBytes _), x, y, ?_, rfl⟩
        rw [Coordinate.ofBytes_toBytes, lift?_eq_some_iff]
        refine ⟨rfl, hc, ?_⟩
        cases y.isOdd <;> rfl
    | false =>
        rw [encode_ofCoordinates_false, parse_uncompressed_iff]
        refine ⟨?_, x, y, ?_, rfl⟩
        · rw [List.length_append, Coordinate.length_toBytes, Coordinate.length_toBytes]
          rfl
        · rw [List.take_left' (Coordinate.length_toBytes _),
            List.drop_left' (Coordinate.length_toBytes _), Coordinate.ofBytes_toBytes,
            Coordinate.ofBytes_toBytes, check?_eq_some_iff]
          exact ⟨rfl, rfl, hc⟩

/-- **A key on the curve** is determined by its encoding. -/
theorem OnCurve.encode_inj_iff (hk : k.OnCurve) (hl : l.OnCurve) : k.encode = l.encode ↔ k = l := by
  constructor
  · intro e
    have h : parse k.encode = .ok l := parse_eq_ok_iff.mpr ⟨e, hl⟩
    rw [parse_eq_ok_iff.mpr ⟨rfl, hk⟩] at h
    exact Except.ok.inj h
  · rintro rfl
    rfl

/-- A form that is not read is not a key. -/
theorem sized_eq_error {length size : Nat} {cause cause' : InvalidKey} {point : Option PublicKey}
    {e : KeyError}
    (h : (if length ≠ size then .error (.invalidKey cause)
      else point.elim (.error (.invalidKey cause')) .ok) = Except.error e) :
    ∃ cause, e = .invalidKey cause := by
  split_ifs at h
  · exact ⟨cause, (Except.error.inj h).symm⟩
  · cases point with
    | none => exact ⟨cause', (Except.error.inj h).symm⟩
    | some k => cases h

theorem parse_of_unsupported {tag : UInt8} (h : b.head? = some tag) (hu : Unsupported tag) :
    parse b = .error (.unsupportedEncoding .point tag) := by
  rcases b with _ | ⟨t, body⟩
  · cases h
  · cases h
    rw [parse, if_pos hu]

/-- **Why nothing is read**: the tag is not supported, or what follows is not a key. -/
theorem parse_eq_error {e : KeyError} (h : parse b = .error e) :
    (∃ tag, b.head? = some tag ∧ Unsupported tag ∧ e = .unsupportedEncoding .point tag) ∨
      (∀ tag, b.head? = some tag → ¬ Unsupported tag) ∧ ∃ cause, e = .invalidKey cause := by
  rcases b with _ | ⟨tag, body⟩
  · cases h
    exact .inr ⟨nofun, _, rfl⟩
  rw [parse] at h
  by_cases hu : Unsupported tag
  · rw [if_pos hu] at h
    exact .inl ⟨tag, rfl, hu, (Except.error.inj h).symm⟩
  rw [if_neg hu] at h
  refine .inr ⟨fun t ht => Option.some.inj ht ▸ hu, ?_⟩
  by_cases ht : tag = 0x02 ∨ tag = 0x03
  · rw [if_pos ht] at h
    exact sized_eq_error h
  rw [if_neg ht] at h
  by_cases h₄ : tag = 0x04
  · rw [if_pos h₄] at h
    exact sized_eq_error h
  · rw [if_neg h₄] at h
    exact ⟨_, (Except.error.inj h).symm⟩

/-! ### The octets that are read -/

theorem result_decode (b : Bytes) : (decode b).result = parse b := by
  rw [decode]
  cases parse b <;> rfl

/-- Reading does not ask the arithmetic for anything that it could fail at. -/
theorem decode_ne_failed (failure : QueuedFailure) :
    (decode b).result ≠ .error (.failed failure) := by
  rw [result_decode]
  intro h
  obtain ⟨_, -, -, e⟩ | ⟨-, _, e⟩ := parse_eq_error h <;> cases e

/-- The number behind the tag. -/
def firstNumber (b : Bytes) : Nat := BigEndian.value ((b.drop 1).take coordinateSize)

/-- The number behind the first one. -/
def secondNumber (b : Bytes) : Nat :=
  BigEndian.value ((b.drop (coordinateSize + 1)).take coordinateSize)

/-- A tag `02` or `03` and the first coordinate of a point of the curve. -/
structure CompressedForm (b : Bytes) : Prop where
  length : b.length = compressedSize
  tag : b.head? = some 0x02 ∨ b.head? = some 0x03
  x_lt : firstNumber b < prime
  isSquare : IsSquare ((firstNumber b : ZMod prime) ^ 3 + 7)

/-- A tag `04` and both coordinates of a point of the curve. -/
structure UncompressedForm (b : Bytes) : Prop where
  length : b.length = uncompressedSize
  tag : b.head? = some 0x04
  x_lt : firstNumber b < prime
  y_lt : secondNumber b < prime
  equation : (secondNumber b : ZMod prime) ^ 2 = (firstNumber b : ZMod prime) ^ 3 + 7

theorem firstNumber_encode (k : PublicKey) : firstNumber k.encode = k.x.toNat := by
  have hx : k.x.toBytes.length = coordinateSize := k.x.length_toBytes
  rw [firstNumber, encode, List.drop_succ_cons, List.drop_zero, List.take_left' hx,
    Coordinate.value_toBytes]

theorem secondNumber_encode (h : k.compressed = false) : secondNumber k.encode = k.y.toNat := by
  have hx : k.x.toBytes.length = coordinateSize := k.x.length_toBytes
  have hy : k.y.toBytes.length = coordinateSize := k.y.length_toBytes
  rw [secondNumber, encode, h, if_neg Bool.false_ne_true, List.drop_succ_cons,
    List.drop_left' hx, List.take_of_length_le hy.le, Coordinate.value_toBytes]

theorem head?_encode (k : PublicKey) : k.encode.head? = some k.tag := rfl

/-- The form of a key shows in its tag. -/
theorem compressed_iff_tag (k : PublicKey) :
    k.compressed = true ↔ k.tag = 0x02 ∨ k.tag = 0x03 := by
  rw [tag]
  split_ifs with hc ho
  · exact iff_of_true hc (.inr rfl)
  · exact iff_of_true hc (.inl rfl)
  · exact iff_of_false hc (by decide)

/-- The tag of the compressed form has the parity of the second coordinate. -/
theorem tag_mod_two (h : k.compressed = true) : k.tag.toNat % 2 = k.y.toNat % 2 := by
  rw [tag, if_pos h]
  split_ifs with ho
  · exact ho.symm
  · exact (Nat.mod_two_ne_one.mp ho).symm

/-- The second coordinate is the root of its parity. -/
theorem OnCurve.eq_y_iff (h : k.OnCurve) {y : Nat} :
    y = k.y.toNat ↔
      y < prime ∧ (y : ZMod prime) ^ 2 = (k.x.toNat : ZMod prime) ^ 3 + 7 ∧
        y % 2 = k.y.toNat % 2 := by
  constructor
  · rintro rfl
    exact ⟨h.y_lt, h.equation, rfl⟩
  · rintro ⟨hy, he, ho⟩
    have hp : onCurve ⟨k.x.toNat, h.x_lt⟩ ⟨y, hy⟩ = true := equation_iff.mp he
    have hk : onCurve ⟨k.x.toNat, h.x_lt⟩ ⟨k.y.toNat, h.y_lt⟩ = true := equation_iff.mp h.equation
    refine congrArg Fin.val (onCurve_isOdd_inj hp hk ?_)
    rw [FieldElement.isOdd, FieldElement.isOdd, ho]

/-- **The compressed encodings** of the keys on the curve. -/
theorem compressedForm_iff :
    CompressedForm b ↔ ∃ k : PublicKey, k.compressed = true ∧ b = k.encode ∧ k.OnCurve := by
  constructor
  · rintro ⟨hl, ht, hx, r, hr⟩
    rcases b with _ | ⟨tag, body⟩
    · cases hl
    have hbody : body.length = coordinateSize := Nat.succ.inj hl
    obtain ⟨x, hx⟩ : ∃ x : FieldElement, x.val = firstNumber (tag :: body) := ⟨⟨_, hx⟩, rfl⟩
    have hroot : onCurve x (FieldElement.ofResidue r) = true := by
      refine equation_iff.mp ?_
      rw [hx, hr, ← sq]
      exact congrArg (· ^ 2) (FieldElement.residue_ofResidue r)
    -- The root of the parity that the tag asks for.
    obtain ⟨hc, ho⟩ := onCurve_parity hroot (decide (tag = 0x03))
    refine ⟨ofCoordinates true (x, _), rfl, ?_, onCurve_ofCoordinates hc⟩
    have hb : (Coordinate.ofField x).toBytes = body :=
      Coordinate.toBytes_ofField hbody
        (hx.trans (congrArg BigEndian.value (List.take_of_length_le hbody.le)))
    rw [encode_ofCoordinates_true, ho, hb]
    rcases ht with ht | ht
    · cases ht
      rfl
    · cases ht
      rfl
  · rintro ⟨k, hc, rfl, h⟩
    refine ⟨?_, ?_, ?_, ?_⟩
    · rw [length_encode, if_pos hc]
    · rw [head?_encode, tag, if_pos hc]
      split_ifs
      · exact .inr rfl
      · exact .inl rfl
    · exact (firstNumber_encode k).trans_lt h.x_lt
    · rw [firstNumber_encode]
      exact ⟨_, h.equation.symm.trans (sq _)⟩

/-- **The uncompressed encodings** of the keys on the curve. -/
theorem uncompressedForm_iff :
    UncompressedForm b ↔ ∃ k : PublicKey, k.compressed = false ∧ b = k.encode ∧ k.OnCurve := by
  constructor
  · rintro ⟨hl, ht, hx, hy, he⟩
    rcases b with _ | ⟨tag, body⟩
    · cases hl
    cases ht
    refine ⟨ofCoordinates false (⟨_, hx⟩, ⟨_, hy⟩), rfl, ?_,
      onCurve_ofCoordinates (equation_iff.mp he)⟩
    have hbody : body.length = coordinateSize + coordinateSize := Nat.succ.inj hl
    have h₁ : (body.take coordinateSize).length = coordinateSize := by
      rw [List.length_take, hbody]
      rfl
    have h₂ : (body.drop coordinateSize).length = coordinateSize := by
      rw [List.length_drop, hbody]
      rfl
    have hx' : (Coordinate.ofField ⟨_, hx⟩).toBytes = body.take coordinateSize :=
      Coordinate.toBytes_ofField h₁ rfl
    have hy' : (Coordinate.ofField ⟨_, hy⟩).toBytes = body.drop coordinateSize :=
      Coordinate.toBytes_ofField h₂ (congrArg BigEndian.value (List.take_of_length_le h₂.le))
    rw [encode_ofCoordinates_false, hx', hy', List.take_append_drop]
  · rintro ⟨k, hc, rfl, h⟩
    have hf := firstNumber_encode k
    have hs := secondNumber_encode hc
    refine ⟨?_, ?_, hf.trans_lt h.x_lt, hs.trans_lt h.y_lt, ?_⟩
    · rw [length_encode, if_neg (Bool.eq_false_iff.mp hc)]
    · rw [head?_encode, tag, if_neg (Bool.eq_false_iff.mp hc)]
    · rw [hf, hs]
      exact h.equation

/-- A key is read from the octets of either form. -/
theorem exists_parse_eq_ok_iff :
    (∃ k, parse b = .ok k) ↔ CompressedForm b ∨ UncompressedForm b := by
  rw [compressedForm_iff, uncompressedForm_iff]
  simp only [parse_eq_ok_iff]
  constructor
  · rintro ⟨k, h⟩
    cases hc : k.compressed with
    | true => exact .inl ⟨k, hc, h⟩
    | false => exact .inr ⟨k, hc, h⟩
  · rintro (⟨k, -, h⟩ | ⟨k, -, h⟩)
    · exact ⟨k, h⟩
    · exact ⟨k, h⟩

/-- **The octets of a point.**  A tag that is not supported is refused whatever follows; the two
forms of the points of the curve are read; and all else is an invalid key.  What is read has the
numbers of the octets, in the compressed form with the root of the parity of the tag, and its
encoding is the octets again. -/
theorem decode_outcome (b : Bytes) :
    ((∃ place tag, (decode b).result = .error (.unsupportedEncoding place tag)) ↔
      ∃ tag, b.head? = some tag ∧ Unsupported tag) ∧
    ((∃ k, (decode b).result = .ok k) ↔ CompressedForm b ∨ UncompressedForm b) ∧
    ((∃ cause, (decode b).result = .error (.invalidKey cause)) ↔
      ¬ (∃ tag, b.head? = some tag ∧ Unsupported tag) ∧
        ¬ (CompressedForm b ∨ UncompressedForm b)) ∧
    ∀ k, (decode b).result = .ok k →
      (k.compressed = true ↔ b.head? = some 0x02 ∨ b.head? = some 0x03) ∧
      k.x.toNat = firstNumber b ∧
      (k.compressed = false → k.y.toNat = secondNumber b) ∧
      (k.compressed = true → ∀ y, y = k.y.toNat ↔
        y < prime ∧ (y : ZMod prime) ^ 2 = (firstNumber b : ZMod prime) ^ 3 + 7 ∧
          b.head?.map (·.toNat % 2) = some (y % 2)) ∧
      k.encode = b := by
  rw [result_decode]
  refine ⟨⟨?_, ?_⟩, exists_parse_eq_ok_iff, ⟨?_, ?_⟩, ?_⟩
  · rintro ⟨place, tag, h⟩
    obtain ⟨t, ht, hu, -⟩ | ⟨-, cause, e⟩ := parse_eq_error h
    · exact ⟨t, ht, hu⟩
    · cases e
  · rintro ⟨tag, ht, hu⟩
    exact ⟨_, _, parse_of_unsupported ht hu⟩
  · rintro ⟨cause, h⟩
    rw [← exists_parse_eq_ok_iff]
    constructor
    · rintro ⟨tag, ht, hu⟩
      rw [parse_of_unsupported ht hu] at h
      cases h
    · rintro ⟨k, hk⟩
      rw [h] at hk
      cases hk
  · rw [← exists_parse_eq_ok_iff]
    rintro ⟨hu, hf⟩
    cases hp : parse b with
    | ok k => exact absurd ⟨k, hp⟩ hf
    | error e =>
        obtain ⟨tag, ht, h, -⟩ | ⟨-, cause, rfl⟩ := parse_eq_error hp
        · exact absurd ⟨tag, ht, h⟩ hu
        · exact ⟨cause, rfl⟩
  · intro k h
    obtain ⟨rfl, hk⟩ := parse_eq_ok_iff.mp h
    rw [head?_encode, firstNumber_encode, Option.some_inj, Option.some_inj]
    refine ⟨compressed_iff_tag k, rfl, fun hc => (secondNumber_encode hc).symm, fun hc y => ?_, rfl⟩
    rw [Option.map_some, Option.some_inj, tag_mod_two hc, eq_comm (b := y % 2)]
    exact hk.eq_y_iff

theorem decode_outcome_compressedGenerator :
    ∃ k, (decode compressedGenerator).result = .ok k ∧ k.compressed = true ∧
      k.encode = compressedGenerator := by
  obtain ⟨-, hok, -, h⟩ := decode_outcome compressedGenerator
  have hbase := Point.onCurve_iff.mpr ⟨base, ofGroup_base⟩
  have hform : CompressedForm compressedGenerator :=
    compressedForm_iff.mpr ⟨_, rfl, rfl, onCurve_ofCoordinates hbase⟩
  obtain ⟨k, hk⟩ := hok.mpr (.inl hform)
  obtain ⟨hc, -, -, -, he⟩ := h k hk
  exact ⟨k, hk, hc.mpr (.inl rfl), he⟩

end PublicKey

end CurveKeys
