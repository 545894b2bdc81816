import CurveKeys.Proofs.Bytes.Decimal
import CurveKeys.Proofs.Settings.History

/-!
# Settings — what a dump shows

A dump shows the settings in the order of their full keys, each followed by a newline.  So it has a
line for each setting, and one more for each newline in a setting: it can be read line by line where
no setting has any, and elsewhere a value can show a setting that does not exist.

* `Settings.Kept`: what is true of the entries after any settings were stored; `Kept.store` is the
  step and `kept_storeAll` the run.
* `Setting.OnOneLine`, `Settings.newline_not_mem_shown_iff`: the settings that take one line.
* `Settings.mem_lines_of_value`: what a newline in a value begins.
* `Settings.dump_lines_iff`: the lines of a dump after any actions.
-/

namespace CurveKeys

/-- No part of the setting that is shown has a newline in it. -/
structure Setting.OnOneLine (x : Setting) : Prop where
  sectionName : Text.newline ∉ x.sectionName
  key : Text.newline ∉ x.key
  value : Text.newline ∉ x.value
  source : Text.newline ∉ x.origin.source

theorem Origin.newline_mem_remark_iff (o : Origin) :
    Text.newline ∈ o.remark ↔ Text.newline ∈ o.source := by
  cases o with
  | default | assigned | commandLine => exact iff_of_false (by decide) (by decide)
  | line source number =>
      have digits : Text.newline ∉ Decimal.ofNat number := Decimal.not_mem_ofNat rfl number
      have sign : Text.newline ∉ Bytes.ascii "  # " := by decide
      have colon : Text.newline ∉ Bytes.ascii ":" := by decide
      simp only [remark, Origin.source, List.mem_append, digits, sign, colon, false_or, or_false]

namespace Settings

variable {entries : List (Bytes × Setting)} {entry : Bytes × Setting} {name : Bytes}
  {setting : Setting} {stored : List Setting}

/-! ### Entries in order -/

theorem mem_insert (h : entry ∈ insert name setting entries) :
    entry = (name, setting) ∨ entry ∈ entries := by
  induction entries with
  | nil => exact .inl (List.mem_singleton.mp h)
  | cons first rest ih =>
      rw [insert] at h
      split_ifs at h
      · exact (List.mem_cons.mp h).imp_right (List.mem_cons_of_mem first)
      · exact List.mem_cons.mp h
      · rcases List.mem_cons.mp h with rfl | h
        · exact .inr List.mem_cons_self
        · exact (ih h).imp_right (List.mem_cons_of_mem first)

/-- The names of entries increase. -/
def Increasing (entries : List (Bytes × Setting)) : Prop := entries.Pairwise fun a b => a.1 < b.1

/-- An entry that is put in goes between those with lesser and with greater names. -/
theorem Increasing.insert (h : Increasing entries) (name : Bytes) (setting : Setting) :
    Increasing (insert name setting entries) := by
  induction entries with
  | nil => exact List.pairwise_singleton _ _
  | cons first rest ih =>
      obtain ⟨below, hrest⟩ := List.pairwise_cons.mp h
      rw [Settings.insert]
      by_cases he : name = first.1
      · rw [if_pos he]
        exact List.pairwise_cons.mpr ⟨fun e hm => he ▸ below e hm, hrest⟩
      by_cases hlt : name < first.1
      · rw [if_neg he, if_pos hlt]
        refine List.pairwise_cons.mpr ⟨fun e hm => ?_, h⟩
        rcases List.mem_cons.mp hm with rfl | hm
        · exact hlt
        · exact List.lt_trans hlt (below e hm)
      · rw [if_neg he, if_neg hlt]
        have hgt : first.1 < name := Std.lt_of_le_of_ne (List.not_lt.mp hlt) (Ne.symm he)
        refine List.pairwise_cons.mpr ⟨fun e hm => ?_, ih hrest⟩
        rcases mem_insert hm with rfl | hm
        · exact hgt
        · exact below e hm

/-- The entries are settings that were stored, each under its full key, in the order of these. -/
structure Kept (stored : List Setting) (entries : List (Bytes × Setting)) : Prop where
  increasing : Increasing entries
  named : ∀ e ∈ entries, e.1 = fullKey e.2.sectionName e.2.key
  stored : ∀ e ∈ entries, e.2 ∈ stored

/-- **One setting more.** -/
theorem Kept.store {s : Settings} (h : Kept stored s.entries) (x : Setting) :
    Kept (stored ++ [x]) (s.store x).entries := by
  classical
  have before : ∀ e ∈ s.entries, e.2 ∈ stored ++ [x] := fun e he =>
    List.mem_append_left _ (h.stored e he)
  rw [store_eq]
  by_cases hy : s.Yields x
  · rw [if_pos hy]
    exact ⟨h.increasing, h.named, before⟩
  rw [if_neg hy]
  refine ⟨h.increasing.insert _ _, fun e he => ?_, fun e he => ?_⟩
  · rcases mem_insert he with rfl | he
    · rfl
    · exact h.named e he
  · rcases mem_insert he with rfl | he
    · exact List.mem_append_right _ List.mem_cons_self
    · exact before e he

/-- **Settings stored** one after the other. -/
theorem kept_storeAll (xs : List Setting) : Kept xs (storeAll .empty xs).entries := by
  induction xs using List.reverseRecOn with
  | nil => exact ⟨.nil, List.forall_mem_nil _, List.forall_mem_nil _⟩
  | append_singleton xs x ih =>
      rw [storeAll_append, storeAll_singleton]
      exact ih.store x

theorem kept_run (actions : List Action) : Kept (storedBy actions) (run .empty actions).entries :=
  entries_run actions ▸ kept_storeAll (storedBy actions)

/-! ### Lines -/

/-- What is shown of an entry in front of the newline: full key, value and origin. -/
def shown (entry : Bytes × Setting) : Bytes :=
  entry.1 ++ 0x3d :: entry.2.value ++ entry.2.origin.remark

theorem dump_eq (s : Settings) : s.dump = Text.unlines (s.entries.map shown) := by
  rw [dump, Text.unlines, List.flatMap_map]
  rfl

/-- **An entry takes one line** when no part of its setting has a newline. -/
theorem newline_not_mem_shown_iff (h : entry.1 = fullKey entry.2.sectionName entry.2.key) :
    Text.newline ∉ shown entry ↔ entry.2.OnOneLine := by
  have hequal : Text.newline ≠ 0x3d := by decide
  have hcolon : Text.newline ≠ 0x3a := by decide
  have hname : Text.newline ∈ entry.1 ↔
      Text.newline ∈ entry.2.sectionName ∨ Text.newline ∈ entry.2.key := by
    rw [h, fullKey]
    split_ifs with hs
    · simp [List.isEmpty_iff.mp hs]
    · simp [hcolon]
  simp only [shown, List.mem_append, List.mem_cons, hname, hequal, false_or,
    Origin.newline_mem_remark_iff, not_or]
  exact ⟨fun ⟨⟨⟨hs, hk⟩, hv⟩, ho⟩ => ⟨hs, hk, hv, ho⟩, fun ⟨hs, hk, hv, ho⟩ => ⟨⟨⟨hs, hk⟩, hv⟩, ho⟩⟩

/-- **A newline in a value** begins a line of its own, which shows whatever name and value stand
behind the newline. -/
theorem mem_lines_of_value {s : Settings} (he : entry ∈ s.entries) {before other value : Bytes}
    (hvalue : entry.2.value = before ++ Text.newline :: (other ++ 0x3d :: value))
    (hline : Text.newline ∉ other ++ 0x3d :: value ++ entry.2.origin.remark) :
    other ++ 0x3d :: value ++ entry.2.origin.remark ∈ Text.lines s.dump := by
  rw [dump_eq, Text.lines_unlines_eq]
  refine List.mem_flatMap.mpr ⟨shown entry, List.mem_map_of_mem he, ?_⟩
  have hshown : shown entry = (entry.1 ++ 0x3d :: before) ++
      Text.newline :: (other ++ 0x3d :: value ++ entry.2.origin.remark) := by
    rw [shown, hvalue]
    simp only [List.append_assoc, List.cons_append]
  rw [hshown, Text.splitOn_append_cons, List.splitOn_eq_singleton hline]
  exact List.mem_append_right _ List.mem_cons_self

/-- **The lines of a dump** after any actions.  The entries are settings that were stored, each under
its full key, in increasing order of these, and each is shown in front of a newline.  There is a
line for each entry, and one more for each newline in what is shown of it; so they are as many as the
entries, and one for each of them, just where no entry has a newline in its section, key, value or
source.  Behind a newline in a value stands, as a line of its own, whatever setting the value names
there. -/
theorem dump_lines_iff (actions : List Action) :
    let s := run .empty actions
    s.entries.Pairwise (fun a b => a.1 < b.1) ∧
    (∀ e ∈ s.entries, e.1 = fullKey e.2.sectionName e.2.key ∧ e.2 ∈ storedBy actions) ∧
    s.dump = Text.unlines (s.entries.map shown) ∧
    (Text.lines s.dump).length =
      s.size + (s.entries.map fun e => (shown e).count Text.newline).sum ∧
    ((Text.lines s.dump).length = s.size ↔ ∀ e ∈ s.entries, e.2.OnOneLine) ∧
    (Text.lines s.dump = s.entries.map shown ↔ ∀ e ∈ s.entries, e.2.OnOneLine) ∧
    ∀ e ∈ s.entries, ∀ before other value,
      e.2.value = before ++ Text.newline :: (other ++ 0x3d :: value) →
      Text.newline ∉ other ++ 0x3d :: value ++ e.2.origin.remark →
      other ++ 0x3d :: value ++ e.2.origin.remark ∈ Text.lines s.dump := by
  intro s
  have hkept : Kept (storedBy actions) s.entries := kept_run actions
  have hsize : s.size = (s.entries.map shown).length := (List.length_map _).symm
  have hplain : (∀ l ∈ s.entries.map shown, Text.newline ∉ l) ↔ ∀ e ∈ s.entries, e.2.OnOneLine := by
    rw [List.forall_mem_map]
    exact forall₂_congr fun e he => newline_not_mem_shown_iff (hkept.named e he)
  refine ⟨hkept.increasing, fun e he => ⟨hkept.named e he, hkept.stored e he⟩, s.dump_eq, ?_, ?_, ?_,
    fun e he _ _ _ hvalue hline => mem_lines_of_value he hvalue hline⟩
  · rw [s.dump_eq, Text.length_lines_unlines, hsize, List.map_map]
    rfl
  · rw [s.dump_eq, hsize, Text.length_lines_unlines_eq_iff, hplain]
  · rw [s.dump_eq, Text.lines_unlines_eq_self_iff, hplain]

/-- A text of one line that sets one key, to a value with a newline and another assignment. -/
def someTwoLines : List Action := [.readText unnamedText (Bytes.ascii "a=\"x\\nb=1\"")]

theorem dump_lines_iff_someTwoLines :
    (run .empty someTwoLines).size = 1 ∧ (run .empty someTwoLines).find? [0x62] [] = none ∧
      Bytes.ascii "b=1  # <string>:1" ∈ Text.lines (run .empty someTwoLines).dump ∧
      (Text.lines (run .empty someTwoLines).dump).length ≠ (run .empty someTwoLines).size := by
  let entry : Bytes × Setting :=
    ([0x61], ⟨[], [0x61], Bytes.ascii "x\nb=1", .line unnamedText 1⟩)
  have hentries : (run .empty someTwoLines).entries = [entry] := by decide
  have hone : Decimal.ofNat 1 = [0x31] := by rw [Decimal.ofNat]; rfl
  have hremark : entry.2.origin.remark = Bytes.ascii "  # <string>:1" := by
    rw [Origin.remark, hone]
    rfl
  have hmem : entry ∈ (run .empty someTwoLines).entries := hentries ▸ List.mem_singleton.mpr rfl
  obtain ⟨-, -, -, -, hlength, -, hother⟩ := dump_lines_iff someTwoLines
  have hline := hother entry hmem [0x78] [0x62] [0x31] rfl (hremark ▸ by decide)
  rw [hremark] at hline
  exact ⟨by decide, by decide, hline, fun h => (hlength.mp h entry hmem).value (by decide)⟩

end Settings

end CurveKeys
