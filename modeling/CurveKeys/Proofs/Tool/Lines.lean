import CurveKeys.Proofs.Bytes.Hex
import CurveKeys.Proofs.Bytes.Text
import CurveKeys.Proofs.Keys.Exchanged
import CurveKeys.Tool.Command

/-!
# Tool — the lines of what is printed

All that commands print are lines of a label and digits.  Which of them reveal a private key can be
told from their beginnings, from the place of the private key in a record, and from the lengths.

* `pairText_eq`, `row_eq`, `ofLines_eq`: the texts, by their lines.
* `Reveals`, `Shows`: a line reveals a pair, a text shows it.
* `Dull`: a line that reveals nothing, by its beginning.
* `shows_digits_iff`, `shows_pairText_iff`, `shows_generatedLines_iff`: the texts that show a pair.
-/

namespace CurveKeys

open Curve

namespace KeyPair

/-- The private octets stand in the record of a pair. -/
theorem privateOctets_toRecord (k : KeyPair) :
    (k.toRecord.drop Record.privateOffset).take PrivateKey.size = k.privateKey.toBytes :=
  Record.take_privateOffset k.sized_toRecord.publicOctets k.privateKey.length_toBytes

theorem scalar_eq_of_toBytes {k l : KeyPair} (h : k.privateKey.toBytes = l.privateKey.toBytes) :
    k.privateKey.scalar = l.privateKey.scalar := by
  refine Scalar.value_injective ?_
  rw [← k.privateKey.value_toBytes, h, l.privateKey.value_toBytes]

theorem scalar_eq_of_toRecord {k l : KeyPair} (h : k.toRecord = l.toRecord) :
    k.privateKey.scalar = l.privateKey.scalar :=
  scalar_eq_of_toBytes <| by rw [← k.privateOctets_toRecord, h, l.privateOctets_toRecord]

/-- A record is longer than a digest. -/
theorem length_toRecord_ne (k : KeyPair) : k.toRecord.length ≠ 20 := by
  intro h
  have hl := congrArg List.length k.privateOctets_toRecord
  rw [List.length_take, List.length_drop, h, k.privateKey.length_toBytes] at hl
  exact absurd hl (by decide)

/-- The encoding of a public key begins with a tag that no record begins with. -/
theorem toRecord_ne_encode (k : KeyPair) (p : PublicKey) : p.encode ≠ k.toRecord := by
  intro h
  have ht : p.tag = 0x30 := Option.some.inj (congrArg List.head? h)
  rw [PublicKey.tag] at ht
  split_ifs at ht <;> exact absurd ht (by decide)

end KeyPair

namespace Tool

/-! ### Texts by their lines -/

theorem row_eq (label : String) (value : Bytes) :
    row label value = Text.unlines [Bytes.ascii label ++ value] :=
  (List.append_nil _).symm

theorem ofLines_eq (ls : List String) : ofLines ls = Text.unlines (ls.map Bytes.ascii) := by
  rw [ofLines, Text.unlines, List.flatMap_map]

/-- The line of the private key of a pair. -/
def privateLine (k : KeyPair) : Bytes := Bytes.ascii "private:    " ++ k.privateKey.toHex

/-- The lines of a pair behind its private key. -/
def publicLines (k : KeyPair) : List Bytes :=
  [Bytes.ascii "public:     " ++ k.publicKey.toHex,
   Bytes.ascii "compressed: " ++ Bytes.ascii (if k.isCompressed then "yes" else "no"),
   Bytes.ascii "hash160:    " ++ k.publicKey.digest.toHex]

/-- The lines of a pair. -/
def pairLines (k : KeyPair) : List Bytes := privateLine k :: publicLines k

theorem pairText_eq (k : KeyPair) : pairText k = Text.unlines (pairLines k) := by
  rw [pairText, row_eq, row_eq, row_eq, row_eq, ← Text.unlines_append, ← Text.unlines_append,
    ← Text.unlines_append]
  rfl

/-! ### No newline in a line -/

theorem newline_not_mem_encode (b : Bytes) : Text.newline ∉ Hex.encode b :=
  fun h => absurd (Hex.isWritten_of_mem_encode h) (by decide)

theorem newline_not_mem_labelled {label value : Bytes} (hl : Text.newline ∉ label)
    (hv : Text.newline ∉ value) : Text.newline ∉ label ++ value :=
  fun h => (List.mem_append.mp h).elim hl hv

/-! ### Lines that reveal a private key -/

/-- A line reveals a pair: it is the line of its private key, or its record, with or without the
label. -/
inductive Reveals (k : KeyPair) : Bytes → Prop where
  | privateKey : Reveals k (privateLine k)
  | record : Reveals k (Hex.encode k.toRecord)
  | labelled : Reveals k (Bytes.ascii "record:     " ++ Hex.encode k.toRecord)

/-- A text shows a pair in one of its lines. -/
def Shows (text : Bytes) (k : KeyPair) : Prop := ∃ line ∈ Text.lines text, Reveals k line

variable {k : KeyPair} {line : Bytes}

/-- How a line begins that reveals a pair. -/
theorem Reveals.take_two (h : Reveals k line) :
    line.take 2 ∈ ["pr", "30", "re"].map Bytes.ascii := by
  cases h with
  | privateKey => exact List.mem_of_getElem? (i := 0) rfl
  | record => exact List.mem_of_getElem? (i := 1) rfl
  | labelled => exact List.mem_of_getElem? (i := 2) rfl

theorem encode_ne_cons {c : UInt8} (hc : Hex.isWritten c = false) (b rest : Bytes) :
    Hex.encode b ≠ c :: rest := fun e =>
  absurd (Hex.isWritten_of_mem_encode (e ▸ List.mem_cons_self)) (ne_true_of_eq_false hc)

theorem labelled_ne {label label' v v' : Bytes} (hl : label.length = label'.length)
    (h : label ≠ label') : label ++ v ≠ label' ++ v' :=
  fun e => h (List.append_inj_left e hl)

/-- Digits reveal a pair if they are those of its record. -/
theorem reveals_encode_iff {b : Bytes} : Reveals k (Hex.encode b) ↔ b = k.toRecord := by
  refine ⟨fun h => ?_, fun e => e ▸ .record⟩
  generalize he : Hex.encode b = line at h
  cases h with
  | privateKey => exact absurd he (encode_ne_cons (by decide) b _)
  | record => exact Hex.encode_injective he
  | labelled => exact absurd he (encode_ne_cons (by decide) b _)

theorem reveals_labelled_iff {b : Bytes} :
    Reveals k (Bytes.ascii "record:     " ++ Hex.encode b) ↔ b = k.toRecord := by
  refine ⟨fun h => ?_, fun e => e ▸ .labelled⟩
  generalize he : Bytes.ascii "record:     " ++ Hex.encode b = line at h
  cases h with
  | privateKey => exact absurd he (labelled_ne (by decide) (by decide))
  | record => exact absurd he.symm (encode_ne_cons (by decide) _ _)
  | labelled => exact Hex.encode_injective (List.append_cancel_left he)

/-- The line of a private key reveals the pairs with this private key. -/
theorem reveals_privateLine_iff {l : KeyPair} :
    Reveals k (privateLine l) ↔ k.privateKey.scalar = l.privateKey.scalar := by
  refine ⟨fun h => ?_, fun e => ?_⟩
  · generalize he : privateLine l = line at h
    cases h with
    | privateKey =>
        exact (KeyPair.scalar_eq_of_toBytes (Hex.encode_injective (List.append_cancel_left he))).symm
    | record => exact absurd he.symm (encode_ne_cons (by decide) _ _)
    | labelled => exact absurd he (labelled_ne (by decide) (by decide))
  · have hp : privateLine l = privateLine k := by
      rw [privateLine, PrivateKey.toHex, PrivateKey.toBytes, ← e]
      rfl
    rw [hp]
    exact .privateKey

/-! ### Dull lines -/

/-- A line without newlines that begins otherwise than those that reveal a pair. -/
def Dull (l : Bytes) : Prop :=
  Text.newline ∉ l ∧ l.take 2 ∉ ["pr", "30", "re"].map Bytes.ascii

instance : DecidablePred Dull := fun l => inferInstanceAs
  (Decidable (Text.newline ∉ l ∧ l.take 2 ∉ ["pr", "30", "re"].map Bytes.ascii))

theorem Dull.not_reveals (h : Dull line) : ¬ Reveals k line := fun hr => h.2 hr.take_two

/-- A line with a dull label is dull. -/
theorem Dull.labelled {label v : Bytes} (h : Dull label) (hl : 2 ≤ label.length)
    (hv : Text.newline ∉ v) : Dull (label ++ v) :=
  ⟨newline_not_mem_labelled h.1 hv, by rw [List.take_append_of_le_length hl]; exact h.2⟩

/-- A literal is a list of characters, which is decided upon faster than the text itself. -/
theorem Dull.ofList {cs : List Char} (h : Dull (cs.map Char.toUInt8)) :
    Dull (Bytes.ascii (String.ofList cs)) := by
  rwa [Bytes.ascii, String.toList_ofList]

theorem dull_publicLines (k : KeyPair) : ∀ l ∈ publicLines k, Dull l := by
  have hform : Text.newline ∉ Bytes.ascii (if k.isCompressed then "yes" else "no") := by
    cases k.isCompressed <;> decide
  refine List.forall_mem_cons.mpr ⟨?_, List.forall_mem_cons.mpr ⟨?_, ?_⟩⟩
  · exact .labelled (by decide) (by decide) (newline_not_mem_encode _)
  · exact .labelled (by decide) (by decide) hform
  · exact List.forall_mem_singleton.mpr
      (.labelled (by decide) (by decide) (newline_not_mem_encode _))

theorem newline_not_mem_pairLines (k : KeyPair) : ∀ l ∈ pairLines k, Text.newline ∉ l :=
  List.forall_mem_cons.mpr ⟨newline_not_mem_labelled (by decide) (newline_not_mem_encode _),
    fun l hl => (dull_publicLines k l hl).1⟩

/-! ### Texts that show a private key -/

theorem shows_unlines_iff {ls : List Bytes} (h : ∀ l ∈ ls, Text.newline ∉ l) :
    Shows (Text.unlines ls) k ↔ ∃ line ∈ ls, Reveals k line := by
  rw [Shows, Text.lines_unlines h]

/-- An empty text shows no pair. -/
theorem not_shows_nil : ¬ Shows [] k := fun ⟨_, h, _⟩ => nomatch h

/-- A fixed text shows nothing, if its lines are dull. -/
theorem not_shows_ofLines {ls : List String} (h : ∀ l ∈ ls, Dull (Bytes.ascii l)) :
    ¬ Shows (ofLines ls) k := by
  rw [ofLines_eq, shows_unlines_iff (List.forall_mem_map.mpr fun l hl => (h l hl).1)]
  rintro ⟨line, hl, hr⟩
  obtain ⟨l, hl', rfl⟩ := List.mem_map.mp hl
  exact (h l hl').not_reveals hr

theorem not_shows_versionText : ¬ Shows versionText k := by
  apply not_shows_ofLines
  repeat refine List.forall_mem_cons.mpr ⟨Dull.ofList (by decide), ?_⟩
  exact List.forall_mem_nil _

theorem not_shows_usageText : ¬ Shows usageText k := by
  apply not_shows_ofLines
  -- One line after the other, each as a list of characters.
  repeat refine List.forall_mem_cons.mpr ⟨Dull.ofList (by decide), ?_⟩
  exact List.forall_mem_nil _

/-- Digits show a pair if they are those of its record. -/
theorem shows_digits_iff {b : Bytes} : Shows (row "" (Hex.encode b)) k ↔ b = k.toRecord := by
  have hn : ∀ l ∈ [Hex.encode b], Text.newline ∉ l :=
    List.forall_mem_singleton.mpr (newline_not_mem_encode b)
  rw [row_eq]
  refine (shows_unlines_iff hn).trans ?_
  simp only [List.mem_singleton, exists_eq_left]
  exact reveals_encode_iff

theorem exists_pairLines_iff {l : KeyPair} :
    (∃ line ∈ pairLines l, Reveals k line) ↔ k.privateKey.scalar = l.privateKey.scalar := by
  rw [pairLines, List.exists_mem_cons_iff, reveals_privateLine_iff]
  exact or_iff_left fun ⟨_, hl, hr⟩ => (dull_publicLines l _ hl).not_reveals hr

/-- **The text of a pair** shows the pairs with its private key. -/
theorem shows_pairText_iff {l : KeyPair} :
    Shows (pairText l) k ↔ k.privateKey.scalar = l.privateKey.scalar := by
  rw [pairText_eq, shows_unlines_iff (newline_not_mem_pairLines l), exists_pairLines_iff]

/-- The lines of a generated pair: those of the pair, and its record. -/
def generatedLines (k : KeyPair) : List Bytes :=
  pairLines k ++ [Bytes.ascii "record:     " ++ Hex.encode k.toRecord]

theorem generatedText_eq (k : KeyPair) :
    pairText k ++ row "record:     " (Hex.encode k.toRecord) = Text.unlines (generatedLines k) := by
  rw [pairText_eq, row_eq, ← Text.unlines_append]
  rfl

theorem newline_not_mem_generatedLines (k : KeyPair) :
    ∀ l ∈ generatedLines k, Text.newline ∉ l := by
  refine List.forall_mem_append.mpr ⟨newline_not_mem_pairLines k, ?_⟩
  exact List.forall_mem_singleton.mpr
    (newline_not_mem_labelled (by decide) (newline_not_mem_encode _))

/-- The text of a generated pair shows the same pairs. -/
theorem shows_generatedLines_iff {l : KeyPair} :
    Shows (Text.unlines (generatedLines l)) k ↔
      k.privateKey.scalar = l.privateKey.scalar := by
  rw [shows_unlines_iff (newline_not_mem_generatedLines l), generatedLines]
  refine ⟨?_, fun h => ?_⟩
  · rintro ⟨line, hl, hr⟩
    rcases List.mem_append.mp hl with hl | hl
    · exact exists_pairLines_iff.mp ⟨line, hl, hr⟩
    · obtain rfl := List.mem_singleton.mp hl
      exact (KeyPair.scalar_eq_of_toRecord (reveals_labelled_iff.mp hr)).symm
  · obtain ⟨line, hl, hr⟩ := exists_pairLines_iff.mpr h
    exact ⟨line, List.mem_append_left _ hl, hr⟩

end Tool

end CurveKeys
