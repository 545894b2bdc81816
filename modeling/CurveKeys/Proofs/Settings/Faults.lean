import CurveKeys.Proofs.Bytes.Text
import CurveKeys.Proofs.Settings.Texts

/-!
# Settings — the first line that cannot be read

A text is read up to its first bad line: that line is named by its number and the name of the text,
and the settings are those that the lines in front of it leave.

* `Line.keyPart`, `Line.valuePart`: what a line that is no header sets, and to what.
* `Line.Bad`: the lines that cannot be read, and `Line.isReadable_iff`: that they are these.
* `Settings.readLines_stops`: reading ends at the first bad line.
* `Settings.readText_stops`: a text of any lines.
-/

namespace CurveKeys

namespace Line

variable {line s : Bytes}

/-! ### Assignments -/

/-- The text begins with a `no` in front of a small letter. -/
def Negates (s : Bytes) : Prop := s.take 2 = [0x6e, 0x6f] ∧ s[2]?.any Text.isLower = true

instance : DecidablePred Negates :=
  fun s => inferInstanceAs (Decidable (s.take 2 = [0x6e, 0x6f] ∧ s[2]?.any Text.isLower = true))

/-- The key that a line sets: what is in front of the first `=`, or the whole line, without the `no`
that negates it. -/
def keyPart (s : Bytes) : Bytes :=
  if 0x3d ∈ s then Text.trim (s.takeWhile (· != 0x3d)) else if Negates s then s.drop 2 else s

/-- The value that a line sets. -/
def valuePart (s : Bytes) : Bytes :=
  if 0x3d ∈ s then Quoted.unquote (Text.trim ((s.dropWhile (· != 0x3d)).drop 1))
  else if Negates s then Bytes.ascii "false"
  else Bytes.ascii "true"

theorem bareKey_eq (s : Bytes) :
    bareKey s = if Negates s then (s.drop 2, Bytes.ascii "false") else (s, Bytes.ascii "true") := by
  unfold bareKey
  split
  · rename_i c rest
    have h : Negates (0x6e :: 0x6f :: c :: rest) ↔ Text.isLower c = true := and_iff_right rfl
    exact if_congr h.symm rfl rfl
  · rename_i hs
    rw [if_neg]
    rintro ⟨ht, hc⟩
    rcases s with _ | ⟨a, _ | ⟨b, _ | ⟨c, rest⟩⟩⟩
    · cases ht
    · cases ht
    · cases hc
    · obtain ⟨rfl, rfl⟩ : a = 0x6e ∧ b = 0x6f := by simpa using ht
      exact hs c rest rfl

theorem keyPart_append {a : Bytes} (h : 0x3d ∉ a) (b : Bytes) :
    keyPart (a ++ 0x3d :: b) = Text.trim a := by
  rw [keyPart, if_pos (List.mem_append_right a List.mem_cons_self), Text.takeWhile_append_cons h]

theorem valuePart_append {a : Bytes} (h : 0x3d ∉ a) (b : Bytes) :
    valuePart (a ++ 0x3d :: b) = Quoted.unquote (Text.trim b) := by
  rw [valuePart, if_pos (List.mem_append_right a List.mem_cons_self),
    Text.dropWhile_append_cons h, List.drop_one, List.tail_cons]

/-- **An assignment** is read when its key is valid. -/
theorem readAssignment_eq (s : Bytes) :
    readAssignment s =
      if isValidKey (keyPart s) = true then .ok (.assignment (keyPart s) (valuePart s))
      else .error (.invalidKey (keyPart s)) := by
  by_cases h : 0x3d ∈ s
  · obtain ⟨a, b, rfl, ha⟩ := List.eq_append_cons_of_mem h
    rw [readAssignment, Text.splitFirst?_append ha, keyPart_append ha, valuePart_append ha]
  · rw [readAssignment, Text.splitFirst?_of_not_mem h, bareKey_eq, keyPart, valuePart, if_neg h,
      if_neg h]
    by_cases hn : Negates s
    · rw [if_pos hn, if_pos hn, if_pos hn]
    · rw [if_neg hn, if_neg hn, if_neg hn]

/-! ### Bad lines -/

/-- A line that cannot be read. -/
inductive Bad (line : Bytes) : Prop where
  | tooLong : 4096 < line.length → Bad line
  | unclosed : (Text.trim line).head? = some 0x5b → 0x5d ∉ Text.trim line → Bad line
  | badKey (c : UInt8) : (Text.trim line).head? = some c → c ∉ ([0x23, 0x3b, 0x5b] : Bytes) →
      (keyPart (Text.trim line) = [] ∨ ∃ x ∈ keyPart (Text.trim line), isKeyOctet x = false) →
      Bad line

theorem isReadable_eq_true_iff : isReadable line = true ↔ ∃ what, read line = .ok what := by
  rw [isReadable]
  rcases read line with cause | what
  · refine iff_of_false Bool.false_ne_true ?_
    rintro ⟨what, h⟩
    cases h
  · exact iff_of_true rfl ⟨what, rfl⟩

theorem not_isValidKey_iff {key : Bytes} :
    ¬ isValidKey key = true ↔ key = [] ∨ ∃ x ∈ key, isKeyOctet x = false := by
  rw [isValidKey, Bool.and_eq_true, not_and_or]
  simp

theorem exists_readHeader_iff : (∃ what, readHeader s = .ok what) ↔ 0x5d ∈ s := by
  by_cases h : 0x5d ∈ s
  · refine iff_of_true ?_ h
    obtain ⟨a, b, rfl, ha⟩ := List.eq_append_cons_of_mem h
    rw [readHeader, Text.splitFirst?_append ha]
    exact ⟨_, rfl⟩
  · refine iff_of_false ?_ h
    rw [readHeader, Text.splitFirst?_of_not_mem h]
    rintro ⟨what, hw⟩
    cases hw

theorem exists_readAssignment_iff :
    (∃ what, readAssignment s = .ok what) ↔ isValidKey (keyPart s) = true := by
  rw [readAssignment_eq]
  split_ifs with h
  · exact iff_of_true ⟨_, rfl⟩ h
  · refine iff_of_false ?_ h
    rintro ⟨what, hw⟩
    cases hw

theorem not_bad_of_trim_eq_nil (hlen : ¬ 4096 < line.length) (ht : Text.trim line = []) :
    ¬ Bad line := by
  rintro (h | ⟨h, -⟩ | ⟨c, h, -⟩)
  · exact hlen h
  · rw [ht] at h
    cases h
  · rw [ht] at h
    cases h

/-- What makes a line bad that is not too long. -/
theorem bad_iff_of_trim_eq_cons {c : UInt8} {rest : Bytes} (hlen : ¬ 4096 < line.length)
    (ht : Text.trim line = c :: rest) :
    Bad line ↔ (c = 0x5b ∧ 0x5d ∉ rest) ∨
      (c ∉ ([0x23, 0x3b, 0x5b] : Bytes) ∧ ¬ isValidKey (keyPart (c :: rest)) = true) := by
  rw [not_isValidKey_iff]
  constructor
  · rintro (h | ⟨h, hb⟩ | ⟨d, h, hd, hk⟩)
    · exact absurd h hlen
    · rw [ht] at h hb
      exact .inl ⟨Option.some.inj h, fun hr => hb (List.mem_cons_of_mem c hr)⟩
    · rw [ht] at h hk
      obtain rfl := Option.some.inj h
      exact .inr ⟨hd, hk⟩
  · rintro (⟨rfl, hb⟩ | ⟨hc, hk⟩)
    · refine .unclosed (congrArg List.head? ht) (ht ▸ ?_)
      exact List.not_mem_cons_of_ne_of_not_mem (by decide) hb
    · exact .badKey c (congrArg List.head? ht) hc (ht ▸ hk)

/-- **The lines that can be read** are those that are not bad. -/
theorem isReadable_iff : isReadable line = true ↔ ¬ Bad line := by
  rw [isReadable_eq_true_iff, read]
  split_ifs with hlen
  · exact iff_of_false (by rintro ⟨what, hw⟩; cases hw) fun h => h (.tooLong hlen)
  split
  · rename_i ht
    exact iff_of_true ⟨_, rfl⟩ (not_bad_of_trim_eq_nil hlen ht)
  rename_i c rest ht
  rw [bad_iff_of_trim_eq_cons hlen ht]
  split_ifs with hcomment hheader
  · refine iff_of_true ⟨_, rfl⟩ ?_
    rcases hcomment with rfl | rfl <;> simp
  · rw [exists_readHeader_iff, hheader]
    simp
  · rw [exists_readAssignment_iff]
    have hc : c ∉ ([0x23, 0x3b, 0x5b] : Bytes) := by
      simpa [and_assoc, not_or] using And.intro hcomment hheader
    simp [hheader, hc]

instance : DecidablePred Bad := fun line =>
  decidable_of_iff (isReadable line = false) (by rw [← Bool.not_eq_true, isReadable_iff, not_not])

end Line

namespace Settings

/-! ### Reading up to a bad line -/

theorem readLines_cons_of_error (s : Settings) (source sectionName : Bytes) (number : Nat)
    {line : Bytes} {cause : LineError} (rest : List Bytes) (h : Line.read line = .error cause) :
    s.readLines source number sectionName (line :: rest) =
      (s, some (.badLine cause source number)) := by
  rw [readLines, h]

/-- A line that can be read stores what it says, and the next one is in its section. -/
theorem readLines_cons_of_ok (s : Settings) (source sectionName : Bytes) (number : Nat)
    {line : Bytes} {what : Line} (rest : List Bytes) (h : Line.read line = .ok what) :
    s.readLines source number sectionName (line :: rest) =
      (s.storeAll (Line.setting? sectionName (.line source number) line).toList).readLines source
        (number + 1) ((Line.header? line).getD sectionName) rest := by
  rw [readLines, Line.setting?, Line.header?, h]
  cases what <;> rfl

/-- **Reading ends at the first bad line**, with what the lines in front of it leave. -/
theorem readLines_stops (s : Settings) (source sectionName : Bytes) (number : Nat)
    {before : List Bytes} {line : Bytes} {cause : LineError} (after : List Bytes)
    (hb : ∀ l ∈ before, Line.isReadable l = true) (hl : Line.read line = .error cause) :
    s.readLines source number sectionName (before ++ line :: after) =
      ((s.readLines source number sectionName before).1,
        some (.badLine cause source (number + before.length))) := by
  induction before generalizing s number sectionName with
  | nil => exact readLines_cons_of_error s source sectionName number after hl
  | cons first before ih =>
      obtain ⟨hf, hb⟩ := List.forall_mem_cons.mp hb
      obtain ⟨what, hw⟩ := Line.isReadable_eq_true_iff.mp hf
      rw [List.cons_append, readLines_cons_of_ok s source sectionName number _ hw,
        readLines_cons_of_ok s source sectionName number _ hw, ih _ _ _ hb, List.length_cons,
        Nat.add_right_comm, Nat.add_assoc]

/-- Lines are read to the end when all of them can be read. -/
theorem snd_readLines_eq_none_iff (s : Settings) (source sectionName : Bytes) (number : Nat)
    (ls : List Bytes) :
    (s.readLines source number sectionName ls).2 = none ↔
      ∀ l ∈ ls, Line.isReadable l = true := by
  induction ls generalizing s number sectionName with
  | nil => exact iff_of_true rfl (List.forall_mem_nil _)
  | cons line rest ih =>
      rw [List.forall_mem_cons]
      rcases h : Line.read line with cause | what
      · rw [readLines_cons_of_error _ _ _ _ _ h, Line.isReadable, h]
        exact iff_of_false (Option.some_ne_none _) fun hn => Bool.false_ne_true hn.1
      · rw [readLines_cons_of_ok _ _ _ _ _ h, ih, Line.isReadable, h]
        exact (and_iff_right rfl).symm

/-- An empty line at the end says nothing. -/
theorem readLines_concat_nil (s : Settings) (source sectionName : Bytes) (number : Nat)
    (ls : List Bytes) :
    s.readLines source number sectionName (ls ++ [[]]) =
      s.readLines source number sectionName ls := by
  induction ls generalizing s number sectionName with
  | nil => rfl
  | cons line rest ih =>
      rw [List.cons_append]
      rcases h : Line.read line with cause | what
      · rw [readLines_cons_of_error _ _ _ _ _ h, readLines_cons_of_error _ _ _ _ _ h]
      · rw [readLines_cons_of_ok _ _ _ _ _ h, readLines_cons_of_ok _ _ _ _ _ h, ih]

/-! ### Texts -/

theorem readText_eq (s : Settings) (source content : Bytes) :
    s.readText source content = s.readLines source 1 [] (content.splitOn Text.newline) := by
  rw [readText]
  rcases Text.splitOn_newline content with h | h
  · rw [h]
  · rw [h, readLines_concat_nil]

theorem readText_unlines (s : Settings) (source : Bytes) {ls : List Bytes}
    (h : ∀ l ∈ ls, Text.newline ∉ l) :
    s.readText source (Text.unlines ls) = s.readLines source 1 [] ls := by
  rw [readText, Text.lines_unlines h]

/-- **A text is read up to its first bad line.**  It is read as a whole when no line is bad.  Else
the first bad line is reported, by its number and the name of the text, and the settings are those
that the lines in front of it leave. -/
theorem readText_stops (s : Settings) (source content : Bytes) :
    ((s.readText source content).2 = none ↔
      ∀ line ∈ content.splitOn Text.newline, ¬ Line.Bad line) ∧
    ∀ (before : List Bytes) (line : Bytes) (after : List Bytes),
      content.splitOn Text.newline = before ++ line :: after →
      (∀ l ∈ before, ¬ Line.Bad l) → Line.Bad line →
      ∃ e, s.readText source content = ((s.readText source (Text.unlines before)).1, some e) ∧
        e.number = before.length + 1 ∧ e.source = source ∧
        (s.readText source (Text.unlines before)).2 = none := by
  constructor
  · rw [readText_eq, snd_readLines_eq_none_iff]
    exact forall₂_congr fun _ _ => Line.isReadable_iff
  · intro before line after hsplit hbefore hline
    have readable : ∀ l ∈ before, Line.isReadable l = true :=
      fun l hl => Line.isReadable_iff.mpr (hbefore l hl)
    obtain ⟨cause, hcause⟩ : ∃ cause, Line.read line = .error cause := by
      have h := mt Line.isReadable_iff.mp (not_not.mpr hline)
      rw [Line.isReadable_eq_true_iff] at h
      rcases hr : Line.read line with cause | what
      · exact ⟨cause, rfl⟩
      · exact absurd ⟨what, hr⟩ h
    have alone : s.readText source (Text.unlines before) = s.readLines source 1 [] before :=
      readText_unlines s source fun l hl => Text.not_mem_of_mem_splitOn
        (hsplit ▸ List.mem_append_left (line :: after) hl)
    refine ⟨.badLine cause source (1 + before.length), ?_, Nat.add_comm _ _, rfl, ?_⟩
    · rw [readText_eq, hsplit, readLines_stops s source [] 1 after readable hcause, alone]
    · rw [alone]
      exact (snd_readLines_eq_none_iff ..).mpr readable

/-- A text with a header, a flag and carriage returns, and a key with a blank inside. -/
def someContent : Bytes := Bytes.ascii "a = 1\r\n[s] ]\nno\n\n b c=2\nz=3"

theorem readText_stops_someContent :
    (empty.readText [0x66] someContent).2 ≠ none ∧
    ∃ e, empty.readText [0x66] someContent =
        ((empty.readText [0x66] (Bytes.ascii "a = 1\r\n[s] ]\nno\n\n")).1, some e) ∧
      e.number = 5 ∧ e.source = [0x66] := by
  obtain ⟨whole, stops⟩ := readText_stops empty [0x66] someContent
  have hsplit : someContent.splitOn Text.newline =
      [Bytes.ascii "a = 1\r", Bytes.ascii "[s] ]", Bytes.ascii "no", []] ++
        Bytes.ascii " b c=2" :: [Bytes.ascii "z=3"] := by decide
  have bad : Line.Bad (Bytes.ascii " b c=2") := by decide
  refine ⟨fun h => whole.mp h _ (hsplit ▸ by simp) bad, ?_⟩
  obtain ⟨e, he, hn, hs, -⟩ := stops _ _ _ hsplit (by decide) bad
  exact ⟨e, he, hn, hs⟩

end Settings

end CurveKeys
