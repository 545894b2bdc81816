import CurveKeys.Proofs.Bytes.Decimal
import CurveKeys.Proofs.Settings.Store

/-!
# Settings — integers

A value counts as an integer when it is the text of one that has 64 bits.  There may be white space
in front of it, in the wide sense, and blanks behind it.  So every integer of 64 bits can be stored
by its decimal text.

* `Decimal.Denotes`: the texts of integers.
* `readInt?_eq_some_iff`: the texts that count as integers.
* `Settings.int?_eq_some_iff`: the settings that do.
-/

namespace CurveKeys

variable {text : Bytes} {z : Int}

namespace Decimal

/-- The text of an integer: white space, a sign or none, digits, and blanks. -/
inductive Denotes : Bytes → Int → Prop where
  | intro (space : Bytes) (sign : Sign) (digits blanks : Bytes)
      (spaces : ∀ c ∈ space, c ∈ ([0x20, 0x09, 0x0a, 0x0b, 0x0c, 0x0d] : Bytes))
      (isDigit : ∀ c ∈ digits, 0x30 ≤ c ∧ c ≤ 0x39) (some_digit : digits ≠ [])
      (isBlank : ∀ c ∈ blanks, c ∈ ([0x20, 0x09, 0x0d, 0x0a] : Bytes)) :
      Denotes (space ++ (sign.text ++ (digits ++ blanks))) (sign.apply (number digits))

/-- Such a text begins with the integer, and the rest is blank. -/
theorem denotes_iff :
    Denotes text z ↔ ∃ blanks, Begins text z blanks ∧ ∀ c ∈ blanks, Text.isBlank c = true := by
  constructor
  · rintro ⟨space, sign, digits, blanks, spaces, isDigit, some_digit, isBlank⟩
    have hb : ∀ c ∈ blanks, Text.isBlank c = true := fun c hc => isBlank_iff.mpr (isBlank c hc)
    refine ⟨blanks, .intro space sign digits blanks ?_ ?_ some_digit ?_, hb⟩
    · exact fun c hc => isSpace_iff.mpr (spaces c hc)
    · exact fun c hc => isDigit_iff.mpr (isDigit c hc)
    · exact fun c hc => not_isDigit_of_isBlank (hb c (List.mem_of_head? hc))
  · rintro ⟨blanks, begins, hb⟩
    cases begins with
    | intro space sign digits _ spaces isDigit some_digit =>
        refine .intro space sign digits blanks ?_ ?_ some_digit ?_
        · exact fun c hc => isSpace_iff.mp (spaces c hc)
        · exact fun c hc => isDigit_iff.mp (isDigit c hc)
        · exact fun c hc => isBlank_iff.mp (hb c hc)

theorem denotes_ofInt (z : Int) : Denotes (ofInt z) z :=
  denotes_iff.mpr ⟨[], begins_ofInt z, List.forall_mem_nil _⟩

theorem inInt64_iff : inInt64 z = true ↔ -2 ^ 63 ≤ z ∧ z ≤ 2 ^ 63 - 1 := by
  rw [inInt64, Bool.and_eq_true, decide_eq_true_iff, decide_eq_true_iff, Int.le_sub_one_iff]
  rfl

end Decimal

/-- **The texts that count as integers** are those that denote one of 64 bits. -/
theorem readInt?_eq_some_iff :
    readInt? text = some z ↔ Decimal.Denotes text z ∧ -2 ^ 63 ≤ z ∧ z ≤ 2 ^ 63 - 1 := by
  rw [Decimal.denotes_iff, ← Decimal.inInt64_iff, readInt?]
  constructor
  · intro h
    split at h
    · rename_i w rest hr
      split_ifs at h with hb
      obtain rfl := Option.some.inj h
      obtain ⟨begins, hz⟩ := Decimal.readInt64?_eq_some_iff.mp hr
      exact ⟨⟨rest, begins, Text.trim_eq_nil_iff.mp (List.isEmpty_iff.mp hb)⟩, hz⟩
    · cases h
  · rintro ⟨⟨blanks, begins, hb⟩, hz⟩
    rw [Decimal.readInt64?_eq_some_iff.mpr ⟨begins, hz⟩]
    exact if_pos (List.isEmpty_iff.mpr (Text.trim_eq_nil_iff.mpr hb))

namespace Settings

/-- What was set is found, whatever was there. -/
theorem string?_set (s : Settings) (key value sectionName : Bytes) :
    (s.set key value sectionName).string? key sectionName = some value := by
  classical
  have hy : ¬ s.Yields ⟨sectionName, key, value, .assigned⟩ := fun h => by cases h.1
  rw [string?, set, find?_store, if_pos ⟨rfl, hy⟩]
  rfl

/-- **The settings that count as integers** are those whose value denotes one of 64 bits; the
decimal text of such an integer stands for the integer. -/
theorem int?_eq_some_iff (s : Settings) (key sectionName : Bytes) (z : Int) :
    (s.int? key sectionName = some z ↔
      ∃ text, s.string? key sectionName = some text ∧ Decimal.Denotes text z ∧
        -2 ^ 63 ≤ z ∧ z ≤ 2 ^ 63 - 1) ∧
    (-2 ^ 63 ≤ z → z ≤ 2 ^ 63 - 1 →
      (s.set key (Decimal.ofInt z) sectionName).int? key sectionName = some z) := by
  constructor
  · rw [int?, Option.bind_eq_some_iff]
    exact exists_congr fun _ => and_congr_right fun _ => readInt?_eq_some_iff
  · intro hl hu
    rw [int?, string?_set]
    exact readInt?_eq_some_iff.mpr ⟨Decimal.denotes_ofInt z, hl, hu⟩

/-- The least integer of 64 bits, and a text with all that may stand around an integer. -/
theorem int?_eq_some_iff_least :
    (empty.set [0x6b] (Decimal.ofInt (-9223372036854775808)) []).int? [0x6b] =
        some (-9223372036854775808) ∧
      Decimal.Denotes (Bytes.ascii "\x0b\x0c\n +0012\t\r\n ") 12 := by
  have least := (int?_eq_some_iff empty [0x6b] [] (-9223372036854775808)).2 (by decide) (by decide)
  let s := empty.set [0x6b] (Bytes.ascii "\x0b\x0c\n +0012\t\r\n ") []
  obtain ⟨text, ht, hd, -⟩ := (int?_eq_some_iff s [0x6b] [] 12).1.mp (by decide)
  refine ⟨least, ?_⟩
  rwa [Option.some.inj ((string?_set empty _ _ []).symm.trans ht)]

end Settings

end CurveKeys
