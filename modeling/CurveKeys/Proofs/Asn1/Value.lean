import CurveKeys.Proofs.Asn1.Header

/-!
# Asn1 — the octets of a value

Which octets carry the content of a value of a universal type.  Under the distinguished rules they
are a header and the content octets.  Under the basic rules a string may also be in pieces
(`Pieces`), which may be in pieces themselves, and an end mark may stand in place of a length.

* `Pieces.join?`, `exists_of_join?`: the reader of pieces finds exactly what they join to.
* `Carries.readContent`, `exists_of_readContent`: the reader of a value finds exactly the content
  that the octets carry.
* `carries_der`, `Carries.eq_der`: under the distinguished rules these are the octets written.
-/

namespace CurveKeys.Asn1

open Header

/-- The pieces of a string that join to `content`, nested at most `depth` levels deep and followed
by an end mark if `marked`.  Their tags do not matter, but a piece must not look like an end
mark. -/
inductive Pieces : Nat → Bool → Bytes → Bytes → Prop where
  | done {depth : Nat} : Pieces depth false [] []
  | mark {depth : Nat} : Pieces depth true [0, 0] []
  | piece {depth : Nat} {marked : Bool} {header : Header} {octets value s content : Bytes} :
      Announces .basic octets header (value ++ s) → octets ≠ [0, 0] →
      header.constructed = false → header.length = some value.length →
      Pieces depth marked s content →
      Pieces depth marked (octets ++ (value ++ s)) (value ++ content)
  | nested {depth : Nat} {marked : Bool} {header : Header} {octets inner s c content : Bytes} :
      Announces .basic octets header (inner ++ s) →
      header.constructed = true → header.length = some inner.length →
      Pieces depth false inner c → Pieces (depth + 1) marked s content →
      Pieces (depth + 1) marked (octets ++ (inner ++ s)) (c ++ content)
  | nestedMarked {depth : Nat} {marked : Bool} {header : Header}
      {octets inner s c content : Bytes} :
      Announces .basic octets header (inner ++ s) →
      header.constructed = true → header.length = none →
      Pieces depth true inner c → Pieces (depth + 1) marked s content →
      Pieces (depth + 1) marked (octets ++ (inner ++ s)) (c ++ content)

/-- The octets that carry `content` as a value of a universal type. -/
inductive Carries : Rules → Nat → Bytes → Bytes → Prop where
  | whole {rules : Rules} {tag : Nat} {octets content : Bytes} :
      Announces rules octets ⟨.universal, false, tag, some content.length⟩ content →
      Carries rules tag (octets ++ content) content
  | pieces {tag : Nat} {octets s content : Bytes} : tag ∉ primitiveOnly →
      Announces .basic octets ⟨.universal, true, tag, some s.length⟩ s →
      Pieces maxStringDepth false s content → Carries .basic tag (octets ++ s) content
  | marked {tag : Nat} {octets s content : Bytes} : tag ∉ primitiveOnly →
      Announces .basic octets ⟨.universal, true, tag, none⟩ s →
      Pieces maxStringDepth true s content → Carries .basic tag (octets ++ s) content

variable {rules : Rules} {depth tag n : Nat} {marked : Bool} {header : Header}
  {s t rest octets body content : Bytes}

/-! ### End marks -/

/-- A header that begins like an end mark is one. -/
theorem Header.Announces.eq_mark {u : Bytes} (h : Announces rules octets header body)
    (e : octets ++ t = 0 :: 0 :: u) :
    octets = [0, 0] ∧ header = ⟨.universal, false, 0, some 0⟩ := by
  obtain @⟨identifier, groups, counts, header, _, hClass, hConstructed, hTag, hLength, -, -⟩ := h
  obtain ⟨rfl, -⟩ := List.cons.inj e
  obtain ⟨tagClass, constructed, tag, length⟩ := header
  simp only at hClass hConstructed hTag hLength
  cases hTag with
  | short _ =>
      cases hLength with
      | short hc =>
          obtain ⟨rfl, -⟩ := List.cons.inj (List.cons.inj e).2
          subst hClass hConstructed
          exact ⟨rfl, rfl⟩
      | indefinite => cases e
      | long hc =>
          obtain ⟨rfl, -⟩ := List.cons.inj (List.cons.inj e).2
          exact absurd hc (by decide)
  | long hi => exact absurd hi (by decide)

/-! ### Strings in pieces -/

/-- What `gather` finds, without the bound on what is left. -/
def join? (depth : Nat) (marked : Bool) (s : Bytes) : Option (Bytes × Bytes) :=
  (gather depth marked s).map fun (content, rest) => (content, rest.val)

theorem join?_nil : join? depth false [] = some ([], []) := by
  rw [join?, gather]
  rfl

theorem join?_mark : join? depth true (0 :: 0 :: rest) = some ([], rest) := by
  rw [join?, gather]
  rfl

/-- One piece, and the pieces after it. -/
theorem join?_of_read? (hm : ∀ u, s ≠ 0 :: 0 :: u) (hr : read? s = some (header, body)) :
    join? depth marked s =
      match header.constructed, header.length with
      | false, none => none
      | false, some n =>
        (join? depth marked (body.drop n)).map fun (content, rest) => (body.take n ++ content, rest)
      | true, some n =>
        if depth = 0 then none
        else
          (join? (depth - 1) false (body.take n)).bind fun (inner, _) =>
            (join? depth marked (body.drop n)).map fun (content, rest) => (inner ++ content, rest)
      | true, none =>
        if depth = 0 then none
        else
          (join? (depth - 1) true body).bind fun (inner, after) =>
            (join? depth marked after).map fun (content, rest) => (inner ++ content, rest) := by
  have hs : s ≠ [] := by
    rintro rfl
    cases hr
  rw [join?, gather.eq_3 _ _ _ hs hm]
  split
  · rename_i h
    rw [hr] at h
    cases h
  rename_i h
  rw [hr] at h
  cases h
  obtain ⟨_, constructed, _, length⟩ := header
  rcases constructed with _ | _ <;> rcases length with _ | n
  · rfl
  · simp only [join?]
    rcases gather depth marked (body.drop n) with _ | ⟨_, _, _⟩ <;> rfl
  · simp only [join?]
    split_ifs
    · rfl
    rcases gather (depth - 1) true body with _ | ⟨_, after, _⟩
    · rfl
    dsimp only [Option.map_some, Option.bind_some]
    rcases gather depth marked after with _ | ⟨_, _, _⟩ <;> rfl
  · simp only [join?]
    split_ifs
    · rfl
    rcases gather (depth - 1) false (body.take n) with _ | ⟨_, _, _⟩
    · rfl
    rcases gather depth marked (body.drop n) with _ | ⟨_, _, _⟩ <;> rfl

/-- Where pieces can begin. -/
theorem join?_cases (h : join? depth marked s = some (content, rest)) :
    (marked = false ∧ s = [] ∧ content = [] ∧ rest = []) ∨
      (marked = true ∧ s = 0 :: 0 :: rest ∧ content = []) ∨
      ((∀ u, s ≠ 0 :: 0 :: u) ∧ ∃ header body, read? s = some (header, body)) := by
  by_cases hs : s = []
  · subst hs
    cases marked with
    | false =>
        rw [join?_nil] at h
        cases h
        exact .inl ⟨rfl, rfl, rfl, rfl⟩
    | true =>
        rw [join?, gather] at h
        cases h
  by_cases hm : ∃ u, s = 0 :: 0 :: u
  · obtain ⟨u, rfl⟩ := hm
    cases marked with
    | false =>
        rw [join?, gather] at h
        cases h
    | true =>
        rw [join?_mark] at h
        cases h
        exact .inr (.inl ⟨rfl, rfl, rfl⟩)
  rw [not_exists] at hm
  refine .inr (.inr ⟨hm, ?_⟩)
  rcases hr : read? s with _ | ⟨header, body⟩
  · rw [join?, gather.eq_3 _ _ _ hs hm] at h
    split at h
    · cases h
    · rename_i e
      rw [hr] at e
      cases e
  · exact ⟨header, body, rfl⟩

/-- There are no octets only where there is nothing to join. -/
theorem Pieces.ne_nil (h : Pieces depth marked s content) (hne : marked = true ∨ content ≠ []) :
    s ≠ [] := by
  cases h with
  | done => simp at hne
  | mark => exact List.cons_ne_nil _ _
  | piece ha _ _ _ _ | nested ha _ _ _ _ | nestedMarked ha _ _ _ _ =>
      exact List.append_ne_nil_of_left_ne_nil ha.ne_nil _

/-- A value in front of pieces is announced whatever follows the pieces. -/
theorem Pieces.announces {v : Bytes} (h : Pieces depth marked s content)
    (ha : Announces rules octets header (v ++ (s ++ rest))) (hr : marked = false → rest = [])
    (hn : header.length = some v.length ∨ header.length = none) :
    Announces rules octets header (v ++ s) := by
  refine ha.of_fits ?_ fun e => ?_
  · rcases hn with hn | hn
    · rw [fits, hn]
      refine decide_eq_true ?_
      rw [List.length_append]
      exact Nat.le_add_right _ _
    · cases ha with
      | mk _ _ _ _ _ hf =>
          rw [fits, hn] at hf ⊢
          exact hf
  · -- Marked pieces are never empty, and unmarked ones are followed by nothing.
    obtain ⟨rfl, rfl⟩ := List.append_eq_nil_iff.mp e
    cases marked with
    | false =>
        rw [hr rfl]
        rfl
    | true => exact absurd rfl (h.ne_nil (.inl rfl))

/-- Pieces are joined, and what follows their end mark is left. -/
theorem Pieces.join? (h : Pieces depth marked s content) (rest : Bytes)
    (hr : marked = false → rest = []) :
    join? depth marked (s ++ rest) = some (content, rest) := by
  induction h generalizing rest with
  | done => rw [hr rfl, List.append_nil, join?_nil]
  | mark => exact join?_mark
  | piece ha hm hc hn _ ih =>
      have hread := read?_eq_some_iff.mpr ⟨_, rfl, ha.append rest⟩
      rw [List.append_assoc, join?_of_read? (fun u e => hm (ha.eq_mark e).1) hread, hc, hn]
      simp only [List.append_assoc, List.drop_left, List.take_left, ih rest hr, Option.map_some]
  | nested ha hc hn _ _ ih₁ ih₂ =>
      have hread := read?_eq_some_iff.mpr ⟨_, rfl, ha.append rest⟩
      rw [List.append_assoc, join?_of_read? ?_ hread, hc, hn]
      · have ih₁ := ih₁ [] fun _ => rfl
        rw [List.append_nil] at ih₁
        simp only [List.append_assoc, List.drop_left, List.take_left, Nat.add_sub_cancel, ih₁,
          ih₂ rest hr, Option.bind_some, Option.map_some]
        rfl
      · intro u e
        rw [(ha.eq_mark e).2] at hc
        cases hc
  | nestedMarked ha hc hn _ _ ih₁ ih₂ =>
      have hread := read?_eq_some_iff.mpr ⟨_, rfl, ha.append rest⟩
      rw [List.append_assoc, join?_of_read? ?_ hread, hc, hn]
      · simp only [List.append_assoc, Nat.add_sub_cancel, ih₁ _ nofun, ih₂ rest hr,
          Option.bind_some, Option.map_some]
        rfl
      · intro u e
        rw [(ha.eq_mark e).2] at hc
        cases hc

/-- What is joined was in pieces. -/
theorem exists_of_join? (h : Asn1.join? depth marked s = some (content, rest)) :
    ∃ t, s = t ++ rest ∧ Pieces depth marked t content ∧ (marked = false → rest = []) := by
  -- Every piece takes octets, its own pieces fewer than it does.
  induction hl : s.length using Nat.strong_induction_on generalizing depth marked s content rest
    with
  | _ l ih =>
      subst hl
      rcases join?_cases h with ⟨rfl, rfl, rfl, rfl⟩ | ⟨rfl, rfl, rfl⟩ | ⟨hm, header, body, hr⟩
      · exact ⟨[], rfl, .done, fun _ => rfl⟩
      · exact ⟨[0, 0], rfl, .mark, nofun⟩
      have hlt := length_of_read? hr
      obtain ⟨octets, rfl, ha⟩ := read?_eq_some_iff.mp hr
      rw [join?_of_read? hm hr] at h
      rcases hc : header.constructed with _ | _ <;> rcases hn : header.length with _ | n <;>
        simp only [hc, hn] at h
      · cases h
      · -- a piece that is not in pieces
        obtain ⟨v, u, rfl, rfl⟩ := ha.exists_append hn
        rw [List.take_left, List.drop_left] at h
        obtain ⟨⟨c, r⟩, hj, e⟩ := Option.map_eq_some_iff.mp h
        cases e
        rw [List.length_append] at hlt
        obtain ⟨t, rfl, hp, hrest⟩ := ih u.length (by omega) hj rfl
        refine ⟨octets ++ (v ++ t), by simp, .piece ?_ ?_ hc hn hp, hrest⟩
        · exact hp.announces ha hrest (.inl hn)
        · rintro rfl
          exact hm _ rfl
      · -- a piece in pieces up to an end mark
        cases depth with
        | zero => cases h
        | succ depth =>
            obtain ⟨⟨c₁, after⟩, hj₁, h⟩ := Option.bind_eq_some_iff.mp h
            obtain ⟨⟨c₂, r⟩, hj₂, e⟩ := Option.map_eq_some_iff.mp h
            cases e
            obtain ⟨t₁, rfl, hp₁, -⟩ := ih _ (by omega) hj₁ rfl
            rw [List.length_append] at hlt
            obtain ⟨t₂, rfl, hp₂, hrest⟩ := ih after.length (by omega) hj₂ rfl
            refine ⟨octets ++ (t₁ ++ t₂), by simp, .nestedMarked ?_ hc hn hp₁ hp₂, hrest⟩
            exact hp₂.announces ha hrest (.inr hn)
      · -- a piece in pieces that fill it
        cases depth with
        | zero => cases h
        | succ depth =>
            obtain ⟨v, u, rfl, rfl⟩ := ha.exists_append hn
            rw [List.take_left, List.drop_left] at h
            obtain ⟨⟨c₁, after⟩, hj₁, h⟩ := Option.bind_eq_some_iff.mp h
            obtain ⟨⟨c₂, r⟩, hj₂, e⟩ := Option.map_eq_some_iff.mp h
            cases e
            rw [List.length_append] at hlt
            obtain ⟨t₁, rfl, hp₁, hnil⟩ := ih v.length (by omega) hj₁ rfl
            obtain ⟨t₂, rfl, hp₂, hrest⟩ := ih u.length (by omega) hj₂ rfl
            rw [hnil rfl, List.append_nil] at ha hn ⊢
            refine ⟨octets ++ (t₁ ++ t₂), by simp, .nested ?_ hc hn hp₁ hp₂, hrest⟩
            exact hp₂.announces ha hrest (.inl hn)

/-! ### Values -/

/-- The content of a value in pieces. -/
theorem readContent_constructed (hc : header.constructed = true)
    (ht : header.tag ∉ primitiveOnly) :
    readContent header body =
      (match header.length with
        | some n =>
          (join? maxStringDepth false (body.take n)).map
            fun found : Bytes × Bytes => (found.1, body.drop n)
        | none => join? maxStringDepth true body).filter
          fun found : Bytes × Bytes => validContent header.tag found.1 := by
  rw [readContent, hc, if_pos rfl, if_neg ht]
  rcases header.length with _ | n
  · rfl
  · simp only [join?, Option.map_map]
    rfl

/-- A value is read where octets carry it. -/
theorem Carries.readContent (h : Carries rules tag s content)
    (hv : validContent tag content = true) (rest : Bytes) :
    ∃ header body, read? (s ++ rest) = some (header, body) ∧ header.tagClass = .universal ∧
      header.tag = tag ∧ readContent header body = some (content, rest) := by
  cases h with
  | whole ha =>
      have hread := read?_eq_some_iff.mpr ⟨_, rfl, (ha.append rest).basic⟩
      rw [← List.append_assoc] at hread
      refine ⟨_, _, hread, rfl, rfl, ?_⟩
      simp [Asn1.readContent, hv]
  | pieces ht ha hp =>
      have hread := read?_eq_some_iff.mpr ⟨_, rfl, ha.append rest⟩
      rw [← List.append_assoc] at hread
      refine ⟨_, _, hread, rfl, rfl, ?_⟩
      have hj := hp.join? [] fun _ => rfl
      rw [List.append_nil] at hj
      rw [readContent_constructed rfl ht]
      simp [hj, hv]
  | marked ht ha hp =>
      have hread := read?_eq_some_iff.mpr ⟨_, rfl, ha.append rest⟩
      rw [← List.append_assoc] at hread
      refine ⟨_, _, hread, rfl, rfl, ?_⟩
      rw [readContent_constructed rfl ht]
      have hj := hp.join? rest fun hmark => by cases hmark
      simp [hj, hv]

/-- **A value that is read** is carried by the octets in front of what is left. -/
theorem exists_of_readContent (hr : read? s = some (header, body))
    (hc : header.tagClass = .universal) (h : readContent header body = some (content, rest))
    (hne : content ≠ []) :
    ∃ t, s = t ++ rest ∧ Carries .basic header.tag t content ∧
      validContent header.tag content = true := by
  obtain ⟨octets, rfl, ha⟩ := read?_eq_some_iff.mp hr
  obtain ⟨tagClass, constructed, tag, length⟩ := header
  simp only at hc
  subst hc
  cases constructed with
  | false =>
      simp only [readContent, Option.filter_eq_some_iff] at h
      obtain ⟨h, hv⟩ := h
      obtain ⟨n, rfl, e⟩ := Option.map_eq_some_iff.mp h
      obtain ⟨v, u, rfl, rfl⟩ := ha.exists_append rfl
      rw [List.take_left, List.drop_left] at e
      cases e
      refine ⟨octets ++ content, (List.append_assoc _ _ _).symm, .whole ?_, hv⟩
      exact ha.of_fits (decide_eq_true le_rfl) fun e => absurd e hne
  | true =>
      by_cases ht : tag ∈ primitiveOnly
      · simp [readContent, ht] at h
      rw [readContent_constructed rfl ht, Option.filter_eq_some_iff] at h
      obtain ⟨h, hv⟩ := h
      rcases length with _ | n
      · obtain ⟨t, rfl, hp, -⟩ := exists_of_join? h
        refine ⟨octets ++ t, (List.append_assoc _ _ _).symm, .marked ht ?_ hp, hv⟩
        exact ha.of_fits rfl fun e => absurd e (hp.ne_nil (.inl rfl))
      · obtain ⟨v, u, rfl, rfl⟩ := ha.exists_append rfl
        simp only [List.take_left, List.drop_left] at h
        obtain ⟨⟨c, r⟩, hj, e⟩ := Option.map_eq_some_iff.mp h
        cases e
        obtain ⟨t, rfl, hp, hnil⟩ := exists_of_join? hj
        rw [hnil rfl, List.append_nil] at ha ⊢
        refine ⟨octets ++ t, (List.append_assoc _ _ _).symm, .pieces ht ?_ hp, hv⟩
        exact ha.of_fits (decide_eq_true le_rfl) fun e => absurd e (hp.ne_nil (.inr hne))

theorem Carries.basic (h : Carries rules tag s content) : Carries .basic tag s content := by
  cases h with
  | whole ha => exact .whole ha.basic
  | pieces ht ha hp => exact .pieces ht ha hp
  | marked ht ha hp => exact .marked ht ha hp

/-! ### Distinguished octets -/

theorem der_primitive (tag : Tag) (n : Nat) :
    der (UInt8.ofNat tag.number) n = ⟨.universal, false, tag.number, some n⟩ := by
  cases tag <;> rfl

theorem carries_der (tag : Tag) (hl : content.length < 2 ^ 63) :
    Carries rules tag.number (Der.primitive tag content) content := by
  have ha : Announces rules (UInt8.ofNat tag.number :: Der.lengthOctets content.length)
      (der (UInt8.ofNat tag.number) content.length) content :=
    announces_der (by cases tag <;> decide) hl le_rfl
  rw [der_primitive] at ha
  exact .whole ha

theorem Carries.eq_der (tag : Tag) (h : Carries .distinguished tag.number s content) :
    s = Der.primitive tag content := by
  cases h with
  | whole ha =>
      rw [← der_primitive] at ha
      rw [ha.eq_der]
      rfl

end CurveKeys.Asn1
