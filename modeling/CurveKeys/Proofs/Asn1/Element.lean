import CurveKeys.Proofs.Asn1.Value

/-!
# Asn1 — the octets of a sequence

Which octets enclose a value behind an explicit tag, and which enclose the elements of a sequence.
The value behind an explicit tag always has a definite length, and so has a sequence under the
distinguished rules.

* `Carries.readElement`, `Explicit.readElement` and their converses: what is read as one element.
* `Sequence.readSequence`: a sequence is read, and what follows it is left.
* `exists_of_readSequence`: what is read as a sequence that fills a string.
* `explicit_der`, `sequence_der` and their converses: the distinguished octets are those written.
-/

namespace CurveKeys.Asn1

open Header

/-- The octets that enclose `content` behind an explicit tag. -/
def Explicit (rules : Rules) (tag : Nat) (s content : Bytes) : Prop :=
  ∃ octets, s = octets ++ content ∧
    Announces rules octets ⟨.contextSpecific, true, tag, some content.length⟩ content

/-- The octets that enclose the elements of a sequence.  Under the basic rules the constructed bit
does not matter where the length is definite. -/
inductive Sequence : Rules → Bytes → Bytes → Prop where
  | definite {rules : Rules} {constructed : Bool} {octets elements : Bytes} :
      Announces rules octets ⟨.universal, constructed, Tag.sequence.number, some elements.length⟩
        elements →
      (rules = .distinguished → constructed = true) → Sequence rules (octets ++ elements) elements
  | indefinite {octets elements : Bytes} :
      Announces .basic octets ⟨.universal, true, Tag.sequence.number, none⟩ (elements ++ [0, 0]) →
      Sequence .basic (octets ++ (elements ++ [0, 0])) elements

variable {rules : Rules} {tag : Nat} {marked : Bool} {header : Header} {element : Element}
  {elements : List Element} {s t rest after octets body content : Bytes}

/-! ### One element -/

theorem Carries.readElement (h : Carries rules tag s content) (hv : validContent tag content = true)
    (h₁ : tag ≠ Tag.sequence.number) (h₂ : tag ≠ Tag.set.number) (rest : Bytes) :
    readElement (s ++ rest) = some (.universal tag content, rest) := by
  obtain ⟨header, body, hr, hc, rfl, hb⟩ := h.readContent hv rest
  simp only [Asn1.readElement, hr, hc, ne_eq, not_true_eq_false, if_false, h₁, h₂, or_self, hb,
    Option.map_some]

theorem Explicit.read? (h : Explicit rules tag s content) (rest : Bytes) :
    read? (s ++ rest)
      = some (⟨.contextSpecific, true, tag, some content.length⟩, content ++ rest) := by
  obtain ⟨octets, rfl, ha⟩ := h
  exact read?_eq_some_iff.mpr ⟨octets, List.append_assoc _ _ _, (ha.append rest).basic⟩

theorem Explicit.readElement (h : Explicit rules tag s content) (rest : Bytes) :
    readElement (s ++ rest) = some (.tagged s, rest) := by
  simp [Asn1.readElement, h.read? rest, skipValue]

/-- **An element of a universal type** is carried by the octets in front of what is left. -/
theorem exists_of_readElement (h : readElement s = some (.universal tag content, rest))
    (hne : content ≠ []) :
    ∃ t, s = t ++ rest ∧ Carries .basic tag t content ∧ validContent tag content = true := by
  rw [Asn1.readElement] at h
  rcases hr : Header.read? s with _ | ⟨header, body⟩
  · rw [hr] at h
    cases h
  simp only [hr] at h
  split_ifs at h with hc hs hcons
  · obtain ⟨_, _, e⟩ := Option.map_eq_some_iff.mp h
    cases e
  · obtain ⟨_, _, e⟩ := Option.map_eq_some_iff.mp h
    cases e
  · obtain ⟨⟨c, r⟩, hrc, e⟩ := Option.map_eq_some_iff.mp h
    cases e
    exact exists_of_readContent hr (not_not.mp hc) hrc hne

/-- What is kept of an element of another class is what the string begins with. -/
theorem prefix_of_readElement (h : readElement s = some (.tagged t, rest)) : t <+: s := by
  rw [Asn1.readElement] at h
  rcases hr : Header.read? s with _ | ⟨header, body⟩
  · rw [hr] at h
    cases h
  simp only [hr] at h
  split_ifs at h with hc hs hcons
  · obtain ⟨_, _, e⟩ := Option.map_eq_some_iff.mp h
    cases e
    exact List.take_prefix _ _
  · obtain ⟨_, _, e⟩ := Option.map_eq_some_iff.mp h
    cases e
  · obtain ⟨_, _, e⟩ := Option.map_eq_some_iff.mp h
    cases e

theorem Explicit.eq_append (he : Explicit rules tag t content)
    (h : Asn1.readElement s = some (.tagged t, rest)) : s = t ++ rest := by
  obtain ⟨u, rfl⟩ := prefix_of_readElement h
  rw [he.readElement u] at h
  cases h
  rfl

/-! ### Elements and sequences -/

/-- What follows the last element. -/
def endMark (marked : Bool) : Bytes := if marked then [0, 0] else []

theorem readElement_mark (rest : Bytes) :
    readElement (0 :: 0 :: rest) = some (.universal 0 [], rest) := by
  have ha : Announces .basic [0, 0] ⟨.universal, false, 0, some 0⟩ [] :=
    announces_of_short (by decide) (.short (by decide)) (fun h => absurd h (by decide)) rfl
  exact (Carries.whole ha : Carries .basic 0 _ []).readElement rfl (by decide) (by decide) rest

theorem readElements_endMark (hr : marked = false → rest = []) :
    readElements marked (endMark marked ++ rest) = some ([], rest) := by
  cases marked with
  | false =>
      rw [hr rfl]
      exact (readElements.eq_1 false).trans rfl
  | true => exact (readElements.eq_2 true rest).trans rfl

/-- An element that does not look like an end mark is followed by the others. -/
theorem readElements_cons (h : readElement s = some (element, rest))
    (he : element ≠ .universal 0 []) :
    readElements marked s =
      (readElements marked rest).map fun (elements, after) => (element :: elements, after) := by
  rw [readElements.eq_3]
  · split
    · rename_i e
      rw [h] at e
      cases e
    · rename_i e
      rw [h] at e
      cases e
      rfl
  · rintro rfl
    cases h
  · rintro u rfl
    rw [readElement_mark] at h
    cases h
    exact he rfl

theorem exists_of_readElements_cons
    (h : readElements marked s = some (element :: elements, after)) :
    ∃ rest, readElement s = some (element, rest) ∧
      readElements marked rest = some (elements, after) := by
  rw [readElements.eq_def] at h
  split at h
  · split_ifs at h
    cases h
  · split_ifs at h
    cases h
  · split at h
    · cases h
    · rename_i hr
      obtain ⟨⟨es, r⟩, hes, e⟩ := Option.map_eq_some_iff.mp h
      cases e
      exact ⟨_, hr, hes⟩

theorem eq_endMark_of_readElements (h : readElements marked s = some ([], [])) :
    s = endMark marked := by
  rw [readElements.eq_def] at h
  split at h
  · cases marked with
    | false => rfl
    | true => cases h
  · cases marked with
    | false => cases h
    | true =>
        cases h
        rfl
  · split at h
    · cases h
    · obtain ⟨⟨es, r⟩, hes, e⟩ := Option.map_eq_some_iff.mp h
      cases e

/-- Without an end mark the elements take all of a string. -/
theorem rest_of_readElements (h : readElements marked s = some (elements, after))
    (hm : marked = false) : after = [] := by
  fun_induction readElements marked s generalizing elements after with
  | case1 => cases h
  | case2 =>
      cases h
      rfl
  | case3 _ ht => exact absurd (hm.symm.trans ht) Bool.false_ne_true
  | case4 => cases h
  | case5 => cases h
  | case6 _ _ _ _ _ _ ih =>
      obtain ⟨_, hes, e⟩ := Option.map_eq_some_iff.mp h
      cases e
      exact ih hes

/-- What follows a sequence is left, whichever way the sequence ends. -/
theorem Sequence.readSequence (h : Sequence rules s body)
    (he : ∀ marked rest, (marked = false → rest = []) →
      readElements marked (body ++ (endMark marked ++ rest)) = some (elements, rest)) (t : Bytes) :
    readSequence (s ++ t) = some (elements, t) := by
  cases h with
  | definite ha _ =>
      have hr := read?_eq_some_iff.mpr ⟨_, List.append_assoc _ _ t, (ha.append t).basic⟩
      have he := he false [] fun _ => rfl
      rw [endMark, if_neg Bool.false_ne_true, List.append_nil, List.append_nil] at he
      rw [Asn1.readSequence, hr]
      simp [he]
  | indefinite ha =>
      have hr := read?_eq_some_iff.mpr ⟨_, List.append_assoc _ _ t, ha.append t⟩
      have he := he true t nofun
      rw [endMark, if_pos rfl, ← List.append_assoc] at he
      rw [Asn1.readSequence, hr]
      exact he

/-- **A sequence that fills a string** has its elements enclosed there. -/
theorem exists_of_readSequence (h : readSequence s = some (elements, [])) :
    ∃ marked body, readElements marked body = some (elements, []) ∧
      ∀ t, body = t ++ endMark marked → Sequence .basic s t := by
  rw [Asn1.readSequence] at h
  rcases hr : Header.read? s with _ | ⟨⟨tagClass, constructed, tag, length⟩, body⟩
  · rw [hr] at h
    cases h
  simp only [hr] at h
  split_ifs at h with hc
  obtain ⟨rfl, rfl⟩ := hc
  obtain ⟨octets, rfl, ha⟩ := read?_eq_some_iff.mp hr
  rcases length with _ | n
  · refine ⟨true, body, h, ?_⟩
    rintro t rfl
    have hf : constructed = true := by
      cases ha with
      | mk _ _ _ _ _ hf => exact hf
    subst hf
    exact .indefinite ha
  · obtain ⟨v, u, rfl, rfl⟩ := ha.exists_append rfl
    simp only [List.take_left, List.drop_left] at h
    obtain ⟨⟨es, r⟩, hes, e⟩ := Option.map_eq_some_iff.mp h
    obtain ⟨rfl, rfl⟩ := Prod.mk.inj e
    obtain rfl := rest_of_readElements hes rfl
    rw [List.append_nil] at ha ⊢
    refine ⟨false, v, hes, ?_⟩
    intro t ht
    rw [endMark, if_neg Bool.false_ne_true, List.append_nil] at ht
    subst ht
    exact .definite ha nofun

theorem Sequence.exists_read? (h : Sequence rules s body) :
    ∃ found, Header.read? s = some found := by
  cases h with
  | definite ha _ => exact ⟨_, read?_eq_some_iff.mpr ⟨_, rfl, ha.basic⟩⟩
  | indefinite ha => exact ⟨_, read?_eq_some_iff.mpr ⟨_, rfl, ha⟩⟩

/-! ### Distinguished octets -/

theorem Explicit.basic (h : Explicit rules tag s content) : Explicit .basic tag s content := by
  obtain ⟨octets, rfl, ha⟩ := h
  exact ⟨octets, rfl, ha.basic⟩

theorem Sequence.basic (h : Sequence rules s body) : Sequence .basic s body := by
  cases h with
  | definite ha _ => exact .definite ha.basic nofun
  | indefinite ha => exact .indefinite ha

theorem der_explicit {n : Nat} (ht : tag < 31) :
    der (UInt8.ofNat (0xa0 + tag)) n = ⟨.contextSpecific, true, tag, some n⟩ := by
  have hv : (UInt8.ofNat (0xa0 + tag)).toNat = 0xa0 + tag := by
    rw [UInt8.toNat_ofNat']
    omega
  have h₁ : (0xa0 + tag) / 32 % 2 = 1 := by omega
  have h₂ : (0xa0 + tag) % 32 = tag := by omega
  have hc : TagClass.ofIdentifier (UInt8.ofNat (0xa0 + tag)) = .contextSpecific := by
    simp only [TagClass.ofIdentifier, UInt8.lt_iff_toNat_lt, hv, UInt8.reduceToNat]
    rw [if_neg (by omega), if_neg (by omega), if_pos (by omega)]
  rw [der, hv, hc, h₁, h₂]
  rfl

theorem explicit_der (ht : tag < 31) (hl : content.length < 2 ^ 63) :
    Explicit rules tag (Der.explicit tag content) content := by
  refine ⟨_ :: Der.lengthOctets content.length, rfl, ?_⟩
  rw [← der_explicit ht]
  refine announces_der ?_ hl le_rfl
  rw [UInt8.toNat_ofNat']
  omega

theorem Explicit.eq_der (h : Explicit .distinguished tag s content) (ht : tag < 31) :
    s = Der.explicit tag content := by
  obtain ⟨octets, rfl, ha⟩ := h
  rw [← der_explicit ht] at ha
  rw [ha.eq_der]
  rfl

theorem sequence_der {encodings : List Bytes} (hl : encodings.flatten.length < 2 ^ 63) :
    Sequence rules (Der.sequence encodings) encodings.flatten := by
  have ha : Announces rules (0x30 :: Der.lengthOctets encodings.flatten.length)
      (der 0x30 encodings.flatten.length) encodings.flatten :=
    announces_der (by decide) hl le_rfl
  exact .definite ha fun _ => rfl

theorem Sequence.eq_der (encodings : List Bytes)
    (h : Sequence .distinguished s encodings.flatten) : s = Der.sequence encodings := by
  cases h with
  | definite ha hcons =>
      obtain rfl := hcons rfl
      have ha' : Announces .distinguished _ (der 0x30 encodings.flatten.length) _ := ha
      rw [ha'.eq_der]
      rfl

end CurveKeys.Asn1
