import CurveKeys.Journal.Shared
import CurveKeys.Proofs.Bytes.Decimal
import CurveKeys.Proofs.Journal.Delivery

/-!
# Journal — whole lines

A line of an entry is its message behind what is printed in front of it.  A file gets whole lines,
whatever their octets; the console gets each line up to its first zero octet, and that is all of it
just where no field that is printed has a zero octet.

* `Entry.front`, `Entry.zero_mem_text_iff`: where a zero octet in a line comes from.
* `Spool.textWith`: the text of a file and what a sink holds back for it; `textWith_receive` is the
  step and `Journal.textWith_writeAll` the run.
* `Sink.whole_lines_iff`: what the two kinds of sinks make of entries.
-/

namespace CurveKeys

/-! ### Zero octets in a line -/

theorem Timestamp.zero_not_mem_text (ms : Int) : 0 ∉ text ms := by
  have digits := Decimal.not_mem_padded (c := 0) rfl (by decide)
  have year := Decimal.not_mem_ofInt (c := 0) rfl (by decide)
  simp [text, digits, year]

theorem Level.zero_not_mem_name (l : Level) : 0 ∉ l.name := by
  rw [name]
  split <;> decide

namespace Entry

variable {e : Entry} {format : LineFormat}

/-- What is printed in front of the message. -/
def front (e : Entry) (format : LineFormat) : Bytes :=
  (if format.timestamp then Timestamp.text e.time ++ Bytes.ascii " " else [])
    ++ (if format.level then tag e.level.name else [])
    ++ (if format.category && !e.category.isEmpty && e.category != Category.general.name
        then tag e.category else [])
    ++ (if format.location && !e.file.isEmpty
        then baseName e.file ++ 0x3a :: Decimal.ofInt e.line ++ Bytes.ascii " " else [])

theorem text_eq (e : Entry) (format : LineFormat) :
    e.text format = e.front format ++ e.message := rfl

theorem zero_mem_tag_iff (word : Bytes) : 0 ∈ tag word ↔ 0 ∈ word := by
  have hend : (0 : UInt8) ∉ Bytes.ascii "] " := by decide
  simp [tag, hend]

/-- **In front of a message** a zero octet comes from the category or the name of the file. -/
theorem zero_mem_front_iff :
    0 ∈ e.front format ↔
      (format.category = true ∧ 0 ∈ e.category) ∨
        (format.location = true ∧ 0 ∈ baseName e.file) := by
  have hspace : (0 : UInt8) ∉ Bytes.ascii " " := by decide
  have hcolon : (0 : UInt8) ≠ 0x3a := by decide
  have hline : 0 ∉ Decimal.ofInt e.line := Decimal.not_mem_ofInt rfl (by decide) e.line
  -- A category with a zero octet is neither empty nor the general one.
  have hcategory : 0 ∈ e.category → e.category ≠ [] ∧ e.category ≠ Category.general.name := by
    have hgeneral : (0 : UInt8) ∉ Category.general.name := by decide
    exact fun h => ⟨List.ne_nil_of_mem h, fun he => hgeneral (he ▸ h)⟩
  have hfile : 0 ∈ baseName e.file → e.file ≠ [] := by
    intro h he
    rw [he] at h
    exact List.not_mem_nil h
  simp only [front, List.mem_append, List.mem_cons, List.mem_ite_nil_right, Bool.and_eq_true,
    Bool.not_eq_true', List.isEmpty_eq_false_iff, bne_iff_ne, zero_mem_tag_iff,
    Timestamp.zero_not_mem_text, Level.zero_not_mem_name, hspace, hcolon, hline, or_false,
    and_false, false_or]
  refine or_congr ⟨fun h => ⟨h.1.1.1, h.2⟩, fun h => ⟨⟨⟨h.1, ?_⟩, ?_⟩, h.2⟩⟩
    ⟨fun h => ⟨h.1.1, h.2⟩, fun h => ⟨⟨h.1, hfile h.2⟩, h.2⟩⟩
  · exact (hcategory h.2).1
  · exact (hcategory h.2).2

/-- A field that is printed has a zero octet. -/
def ShowsZero (e : Entry) (format : LineFormat) : Prop :=
  (format.category = true ∧ 0 ∈ e.category) ∨
    (format.location = true ∧ 0 ∈ baseName e.file) ∨ 0 ∈ e.message

theorem zero_mem_text_iff : 0 ∈ e.text format ↔ e.ShowsZero format := by
  rw [text_eq, List.mem_append, zero_mem_front_iff, or_assoc, ShowsZero]

end Entry

/-! ### Files -/

namespace Spool

variable {s : Spool} {id : SinkId} {path : Bytes}

/-- The text that has gone into a file. -/
def fileText (s : Spool) (path : Bytes) : Bytes :=
  (s.written.filter (·.path = path)).flatMap Addition.text

/-- The text of a file, and behind it what a sink holds back. -/
def textWith (s : Spool) (id : SinkId) (path : Bytes) : Bytes := s.fileText path ++ s.heldBy id

/-- What a sink holds back is for the file. -/
def HoldsFor (s : Spool) (id : SinkId) (path : Bytes) : Prop :=
  ∃ text, s.held.lookup id = some ⟨path, text⟩

theorem fileText_concat (held : List (SinkId × Addition)) (written : List Addition)
    (path text : Bytes) :
    fileText ⟨held, written ++ [⟨path, text⟩]⟩ path = fileText ⟨held, written⟩ path ++ text := by
  simp [fileText]

/-- **A line for a file** goes behind its text, part of it into the file and part of it held back. -/
theorem textWith_receive (s : Spool) (id : SinkId) (path line : Bytes) :
    (s.receive (id, .appended path line)).textWith id path = s.textWith id path ++ line := by
  have hheld : (s.receive (id, .appended path line)).heldBy id =
      (portion (s.heldBy id ++ line)).2 := by
    simp [receive, heldBy]
  rw [textWith, hheld, receive, fileText_concat, List.append_assoc, portion_append,
    ← List.append_assoc]
  rfl

theorem holdsFor_receive (s : Spool) (id : SinkId) (path line : Bytes) :
    (s.receive (id, .appended path line)).HoldsFor id path :=
  ⟨_, List.lookup_cons_self⟩

/-- A sink that writes what it holds back leaves nothing behind the file. -/
theorem HoldsFor.fileText_release (h : s.HoldsFor id path) :
    (s.release id).fileText path = s.textWith id path := by
  obtain ⟨text, hheld⟩ := h
  rw [release, hheld, textWith, heldBy, hheld]
  exact fileText_concat _ _ _ _

end Spool

namespace Journal

variable {j : Journal} {id : SinkId} {level : Level} {path : Bytes} {es : List Entry}

/-- Hands entries to one sink, one after the other. -/
def writeAll (terminal : Bool) (id : SinkId) (j : Journal) (es : List Entry) : Journal :=
  es.foldl (fun j e => (j.writeTo terminal e id).1) j

theorem writeAll_concat (terminal : Bool) (id : SinkId) (j : Journal) (es : List Entry)
    (e : Entry) :
    j.writeAll terminal id (es ++ [e]) = ((j.writeAll terminal id es).writeTo terminal e id).1 :=
  List.foldl_append

theorem logger_writeAll (terminal : Bool) (id : SinkId) (j : Journal) (es : List Entry) :
    (j.writeAll terminal id es).logger = j.logger := by
  induction es using List.reverseRecOn with
  | nil => rfl
  | append_singleton es e ih => rw [writeAll_concat, ← ih]; rfl

/-- **One entry** for an open file. -/
theorem spool_writeTo (terminal : Bool) {e : Entry}
    (hs : j.logger.sink? id = some (.file level path true)) (hl : level ≤ e.level) :
    (j.writeTo terminal e id).1.spool =
      j.spool.receive (id, .appended path (e.text .full ++ [Text.newline])) := by
  have hwrite : (Sink.file level path true).write terminal e =
      some (.appended path (e.text .full ++ [Text.newline])) := if_pos hl
  have hmade : j.logger.writeTo terminal e id =
      some (id, .appended path (e.text .full ++ [Text.newline])) := by
    rw [Logger.writeTo, hs]
    change ((Sink.file level path true).write terminal e).bind _ = _
    rw [hwrite]
    rfl
  rw [writeTo, hmade]
  rfl

/-- **Entries** for an open file, one after the other. -/
theorem textWith_writeAll (terminal : Bool)
    (hs : j.logger.sink? id = some (.file level path true)) (hl : ∀ e ∈ es, level ≤ e.level) :
    (j.writeAll terminal id es).spool.textWith id path =
      j.spool.textWith id path ++ es.flatMap fun e => e.text .full ++ [Text.newline] := by
  induction es using List.reverseRecOn with
  | nil => exact (List.append_nil _).symm
  | append_singleton es e ih =>
      have he : level ≤ e.level := hl e (List.mem_append_right _ List.mem_cons_self)
      replace ih := ih fun e' he' => hl e' (List.mem_append_left _ he')
      rw [← logger_writeAll terminal id j es] at hs
      rw [writeAll_concat, spool_writeTo terminal hs he, Spool.textWith_receive, ih,
        List.flatMap_append, List.flatMap_singleton, List.append_assoc]

theorem holdsFor_writeAll (terminal : Bool)
    (hs : j.logger.sink? id = some (.file level path true)) (hl : ∀ e ∈ es, level ≤ e.level)
    (hne : es ≠ []) : (j.writeAll terminal id es).spool.HoldsFor id path := by
  rcases List.eq_nil_or_concat es with rfl | ⟨es, e, rfl⟩
  · exact absurd rfl hne
  · rw [List.concat_eq_append] at hl ⊢
    rw [← logger_writeAll terminal id j es] at hs
    rw [writeAll_concat,
      spool_writeTo terminal hs (hl e (List.mem_append_right _ List.mem_cons_self))]
    exact Spool.holdsFor_receive _ _ _ _

end Journal

/-! ### Both kinds of sinks -/

namespace Sink

/-- **Whole lines.**  Of an entry that its level lets through, an open file gets the whole line, which
ends with the whole message, and once the sink has written what it held back the file has grown by
just the lines of the entries.  The console gets the line up to its first zero octet: all of the line
if and only if no field that is printed has a zero octet, and of the message what stands in front of
the first one. -/
theorem whole_lines_iff (level : Level) (format : LineFormat) (colours : Bool) (path : Bytes) :
    (∀ e : Entry, level ≤ e.level →
      (console level format colours).write false e =
        some (.terminal (Bytes.upToNul (e.text format) ++ [Text.newline])) ∧
      ((console level format colours).write false e =
        some (.terminal (e.text format ++ [Text.newline])) ↔ ¬ e.ShowsZero format) ∧
      (0 ∉ e.front format → (console level format colours).write false e =
        some (.terminal (e.front format ++ Bytes.upToNul e.message ++ [Text.newline]))) ∧
      ∀ terminal, (file level path true).write terminal e =
        some (.appended path (e.front .full ++ e.message ++ [Text.newline]))) ∧
    ∀ (terminal : Bool) (j : Journal) (id : SinkId) (es : List Entry),
      j.logger.sink? id = some (.file level path true) → es ≠ [] → (∀ e ∈ es, level ≤ e.level) →
      ((j.writeAll terminal id es).spool.release id).fileText path =
        j.spool.fileText path ++ j.spool.heldBy id ++
          es.flatMap fun e => e.text .full ++ [Text.newline] := by
  constructor
  · intro e hl
    have hconsole : (console level format colours).write false e =
        some (.terminal (Bytes.upToNul (e.text format) ++ [Text.newline])) := by
      refine (if_pos hl).trans ?_
      change some (Output.terminal (consoleLine (colours && false) e format)) = _
      rw [Bool.and_false]
      rfl
    refine ⟨hconsole, ?_, fun hfront => ?_, fun terminal => ?_⟩
    · rw [hconsole, Option.some_inj, Output.terminal.injEq, List.append_left_inj,
        Bytes.upToNul_eq_self_iff, Entry.zero_mem_text_iff]
    · rw [hconsole, Entry.text_eq, Bytes.upToNul_append hfront]
    · exact if_pos hl
  · intro terminal j id es hs hne hl
    rw [(Journal.holdsFor_writeAll terminal hs hl hne).fileText_release,
      Journal.textWith_writeAll terminal hs hl]
    rfl

/-- An entry of which the message has a zero octet, to the console and to a file. -/
theorem whole_lines_iff_zeroOctet :
    let e : Entry := ⟨.info, [], [0x61, 0x00, 0x62], [], 0, 0⟩
    let format : LineFormat := { timestamp := false }
    (console .info format true).write false e =
        some (.terminal (Bytes.ascii "[INFO] a\n")) ∧
      (console .info format true).write false e ≠
        some (.terminal (e.text format ++ [Text.newline])) ∧
      (file .info [0x66] true).write false e =
        some (.appended [0x66] (e.front .full ++ [0x61, 0x00, 0x62] ++ [Text.newline])) := by
  intro e format
  obtain ⟨written, -⟩ := whole_lines_iff .info format true [0x66]
  obtain ⟨-, whole, upTo, appended⟩ := written e (by decide)
  have hmessage : (0 : UInt8) ∈ e.message := by decide
  exact ⟨(upTo (by decide)).trans (by decide), fun h => whole.mp h (.inr (.inr hmessage)), appended false⟩

end Sink

end CurveKeys
