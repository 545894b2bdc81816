import CurveKeys.Proofs.Settings.Faults

/-!
# Settings — values in double quotes

Every value has a text on one line that stands for it: in double quotes, with a backslash in front
of the octets that need one.  Behind a valid key, a line that is not too long therefore sets the key
to any value whatsoever.

* `Quoted.unquote_quote`: a quoted value stands for the value.
* `Line.read_append`: a valid key, `=` and a text without blanks around it.
* `Settings.readText_quoted`: reading a quoted value back.
-/

namespace CurveKeys

namespace Quoted

variable {c e : UInt8}

/-! ### Backslashes -/

/-- What is written behind a backslash stands for the octet that it was written for. -/
theorem escaped?_of_escape? (h : escape? c = some e) : escaped? e = some c := by
  rw [escape?] at h
  split_ifs at h with hnewline htab hself
  · cases h
    rw [hnewline]
    rfl
  · cases h
    rw [htab]
    rfl
  · cases h
    rcases hself with rfl | rfl <;> rfl

/-- An octet that is written without a backslash is none itself, and no newline. -/
theorem ne_of_escape?_eq_none (h : escape? c = none) : c ≠ 0x5c ∧ c ≠ Text.newline := by
  constructor
  · rintro rfl
    cases h
  · rintro rfl
    cases h

theorem unescape_pair (h : escaped? e = some c) (rest : Bytes) :
    unescape (0x5c :: e :: rest) = c :: unescape rest := by
  rw [unescape, h]

theorem unescape_cons (h : c ≠ 0x5c) (rest : Bytes) :
    unescape (c :: rest) = c :: unescape rest := by
  rw [unescape]
  exact fun _ _ hc => absurd hc h

theorem escape_cons (c : UInt8) (value : Bytes) :
    escape (c :: value) = ((escape? c).elim [c] fun e => [0x5c, e]) ++ escape value := by
  rw [escape, List.flatMap_cons]
  cases escape? c <;> rfl

/-- **Backslashes are resolved** to the value they were written for. -/
theorem unescape_escape (value : Bytes) : unescape (escape value) = value := by
  induction value with
  | nil => rfl
  | cons c value ih =>
      rw [escape_cons]
      rcases h : escape? c with _ | e
      · exact (unescape_cons (ne_of_escape?_eq_none h).1 _).trans (congrArg (c :: ·) ih)
      · exact (unescape_pair (escaped?_of_escape? h) _).trans (congrArg (c :: ·) ih)

/-- No newline is left. -/
theorem newline_not_mem_escape (value : Bytes) : Text.newline ∉ escape value := by
  induction value with
  | nil => exact List.not_mem_nil
  | cons c value ih =>
      rw [escape_cons, List.mem_append, not_or]
      refine ⟨?_, ih⟩
      rcases h : escape? c with _ | e
      · exact fun hm => (ne_of_escape?_eq_none h).2 (List.mem_singleton.mp hm).symm
      · have he := escaped?_of_escape? h
        intro hm
        rcases List.mem_pair.mp hm with hm | rfl
        · cases hm
        · cases he

/-! ### Quotes -/

/-- Only the outer quotes matter, whatever stands inside them. -/
theorem unquote_of_doubleQuotes (inner : Bytes) :
    unquote (0x22 :: (inner ++ [0x22])) = unescape inner := by
  obtain ⟨second, rest, h⟩ := List.exists_cons_of_ne_nil (List.concat_ne_nil 0x22 inner)
  rw [h, unquote, ← h, List.getLast?_concat, List.dropLast_concat]
  rfl

theorem unquote_quote (value : Bytes) : unquote (quote value) = value :=
  (unquote_of_doubleQuotes _).trans (unescape_escape value)

theorem newline_not_mem_quote (value : Bytes) : Text.newline ∉ quote value := by
  rw [quote, List.mem_cons, List.mem_append, List.mem_singleton, not_or, not_or]
  exact ⟨by decide, newline_not_mem_escape value, by decide⟩

theorem trimmed_quote (value : Bytes) : Text.Trimmed (quote value) := .enclosed rfl _

end Quoted

/-! ### Keys -/

variable {key value text : Bytes}

theorem isBlank_of_isKeyOctet {c : UInt8} (h : isKeyOctet c = true) : Text.isBlank c = false := by
  rw [Bool.eq_false_iff]
  intro hb
  simp only [Text.isBlank, Bool.or_eq_true, beq_iff_eq] at hb
  rcases hb with ((rfl | rfl) | rfl) | rfl <;> cases h

theorem trimmed_key (hk : isValidKey key = true) : Text.Trimmed key :=
  .of_forall fun _ hc => isBlank_of_isKeyOctet (isKeyOctet_of_mem hk hc)

/-- A key begins neither a comment nor a header. -/
theorem ne_of_isKeyOctet {c : UInt8} (h : isKeyOctet c = true) :
    ¬ (c = 0x23 ∨ c = 0x3b) ∧ c ≠ 0x5b := by
  refine ⟨?_, ?_⟩
  · rintro (rfl | rfl) <;> cases h
  · rintro rfl
    cases h

theorem exists_cons_of_isValidKey (hk : isValidKey key = true) :
    ∃ first rest, key = first :: rest ∧ isKeyOctet first = true := by
  cases key with
  | nil => cases hk
  | cons first rest => exact ⟨first, rest, rfl, isKeyOctet_of_mem hk List.mem_cons_self⟩

/-! ### Lines -/

namespace Line

/-- An octet that can stand neither in keys nor in the text does not stand in the assignment. -/
theorem not_mem_assignment {c : UInt8} (hk : isValidKey key = true) (hc : isKeyOctet c = false)
    (he : c ≠ 0x3d) (ht : c ∉ text) : c ∉ key ++ 0x3d :: text := by
  rw [List.mem_append, List.mem_cons, not_or, not_or]
  exact ⟨not_mem_of_isValidKey hk hc, he, ht⟩

/-- **A valid key, `=` and a text** without blanks around it set the key to what the text stands
for. -/
theorem read_append (hk : isValidKey key = true) (ht : Text.Trimmed text)
    (hl : (key ++ 0x3d :: text).length ≤ maxLength) :
    read (key ++ 0x3d :: text) = .ok (.assignment key (Quoted.unquote text)) := by
  obtain ⟨first, rest, hkey, hfirst⟩ := exists_cons_of_isValidKey hk
  have hne : key ≠ [] := hkey ▸ List.cons_ne_nil first rest
  have heq : 0x3d ∉ key := not_mem_of_isValidKey hk rfl
  have htrim : Text.trim (key ++ 0x3d :: text) = first :: (rest ++ 0x3d :: text) :=
    ((trimmed_key hk).append hne rfl ht).trim_eq.trans (hkey ▸ rfl)
  have hassign : readAssignment (first :: (rest ++ 0x3d :: text)) =
      .ok (.assignment key (Quoted.unquote text)) := by
    rw [← List.cons_append, ← hkey, readAssignment_eq, keyPart_append heq, valuePart_append heq,
      (trimmed_key hk).trim_eq, ht.trim_eq, if_pos hk]
  rw [read, if_neg (Nat.not_lt.mpr hl), htrim]
  simp only [ne_of_isKeyOctet hfirst, if_false]
  exact hassign

end Line

namespace Settings

/-- A text of a single line that sets a key. -/
theorem readText_line (s : Settings) (source : Bytes) {line : Bytes}
    (hn : Text.newline ∉ line) (hr : Line.read line = .ok (.assignment key value)) :
    s.readText source line = (s.store ⟨[], key, value, .line source 1⟩, none) := by
  have hne : line ≠ [] := by
    rintro rfl
    cases hr
  rw [readText, Text.lines_of_not_mem hne hn, readLines, hr]
  rfl

/-- **Every value can be written.**  Behind a valid key, on a line that is not too long, a value in
double quotes is read back as it is, whatever its octets. -/
theorem readText_quoted (s : Settings) (source : Bytes) (hk : isValidKey key = true)
    (hl : (key ++ 0x3d :: Quoted.quote value).length ≤ 4096) :
    (s.readText source (key ++ 0x3d :: Quoted.quote value)).2 = none ∧
      (s.readText source (key ++ 0x3d :: Quoted.quote value)).1.string? key = some value := by
  have hn : Text.newline ∉ key ++ 0x3d :: Quoted.quote value :=
    Line.not_mem_assignment hk rfl (by decide) (Quoted.newline_not_mem_quote value)
  have hr := Line.read_append hk (Quoted.trimmed_quote value) hl
  rw [Quoted.unquote_quote] at hr
  have hy : ¬ s.Yields ⟨[], key, value, .line source 1⟩ := fun h => by cases h.1
  rw [readText_line s source hn hr, string?_store key hy, if_pos rfl]
  exact ⟨rfl, rfl⟩

/-- Blanks around quotes, backslashes in front of quotes and at the end, a newline, a tab, a carriage
return, a zero octet, and an octet above `0x7f`. -/
def someValue : Bytes := Bytes.ascii " \"#=\\\"\n\t\r' " ++ [0x00, 0xff, 0x5c, 0x5c]

theorem readText_quoted_someValue :
    Quoted.quote someValue =
        Bytes.ascii "\" \\\"#=\\\\\\\"\\n\\t\r' " ++ [0x00, 0xff] ++ Bytes.ascii "\\\\\\\\\"" ∧
      ((empty.set [0x6b] [0x31] []).readText [0x66] ([0x6b] ++ 0x3d :: Quoted.quote someValue)).2 =
        none ∧
      ((empty.set [0x6b] [0x31] []).readText [0x66]
          ([0x6b] ++ 0x3d :: Quoted.quote someValue)).1.string? [0x6b] = some someValue :=
  ⟨by decide, readText_quoted (empty.set [0x6b] [0x31] []) [0x66] (by decide) (by decide)⟩

end Settings

end CurveKeys
