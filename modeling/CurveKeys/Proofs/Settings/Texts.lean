import CurveKeys.Proofs.Settings.Arguments

/-!
# Settings — what texts say

A text stores the assignments of its lines in their order, up to the first line that cannot be read.
Each goes to the section of the last header in front of it, and remembers the number of its line.

* `Settings.assigned`: the assignments of lines.
* `Settings.fst_readText`: a text stores its assignments, whatever was stored before.
* `Settings.mem_assigned`: they remember their lines, and their keys have no colon.
-/

namespace CurveKeys

namespace Line

/-- Whether a line can be read. -/
def isReadable (line : Bytes) : Bool :=
  match read line with
  | .ok _    => true
  | .error _ => false

/-- The name in a section header. -/
def header? (line : Bytes) : Option Bytes :=
  match read line with
  | .ok (.header name) => some name
  | _                  => none

/-- The setting that a line stores, in a section and at a place. -/
def setting? (sectionName : Bytes) (place : Origin) (line : Bytes) : Option Setting :=
  match read line with
  | .ok (.assignment key value) => some ⟨sectionName, key, value, place⟩
  | _                           => none

variable {line key value : Bytes}

/-- The key of an assignment is valid. -/
theorem isValidKey_of_read (h : read line = .ok (.assignment key value)) :
    isValidKey key = true := by
  rw [read] at h
  split_ifs at h
  split at h
  · cases h
  split_ifs at h
  · cases h
  · rw [readHeader] at h
    split at h <;> cases h
  · rw [readAssignment] at h
    split at h
    split_ifs at h with hk
    cases h
    exact hk

/-- An assignment remembers its place, and its key has no colon. -/
theorem setting?_eq_some {name : Bytes} {place : Origin}
    {x : Setting} (h : setting? name place line = some x) : x.origin = place ∧ 0x3a ∉ x.key := by
  rw [setting?] at h
  split at h
  · rename_i key value hr
    cases h
    exact ⟨rfl, colon_not_mem_of_isValidKey (isValidKey_of_read hr)⟩
  · cases h

end Line

namespace Settings

variable {x : Setting}

/-- The section in which a line stands: that of the last header in front of it. -/
def sectionAfter (sectionName : Bytes) (before : List Bytes) : Bytes :=
  (before.filterMap Line.header?).getLast?.getD sectionName

/-- The assignments of lines up to the first that cannot be read; the first line has the given
number and stands in the given section. -/
def assigned (source : Bytes) (number : Nat) (sectionName : Bytes) (ls : List Bytes) :
    List Setting :=
  ((ls.takeWhile Line.isReadable).mapIdx fun i line =>
    Line.setting? (sectionAfter sectionName (ls.take i))
      (.line source (number + i)) line).reduceOption

theorem sectionAfter_cons (sectionName line : Bytes) (before : List Bytes) :
    sectionAfter sectionName (line :: before) =
      sectionAfter ((Line.header? line).getD sectionName) before := by
  rw [sectionAfter, sectionAfter, List.filterMap_cons]
  cases Line.header? line with
  | none => rfl
  | some name =>
      rw [List.getLast?_cons]
      rfl

theorem assigned_cons_of_error {source sectionName line : Bytes} {number : Nat} {cause : LineError}
    (rest : List Bytes) (h : Line.read line = .error cause) :
    assigned source number sectionName (line :: rest) = [] := by
  rw [assigned, List.takeWhile_cons, Line.isReadable, h]
  rfl

/-- A line that can be read stores its setting, and the next one stands in its section if it is a
header. -/
theorem assigned_cons_of_ok {source sectionName line : Bytes} {number : Nat} {what : Line}
    (rest : List Bytes) (h : Line.read line = .ok what) :
    assigned source number sectionName (line :: rest) =
      (Line.setting? sectionName (.line source number) line).toList ++
        assigned source (number + 1) ((Line.header? line).getD sectionName) rest := by
  have hr : Line.isReadable line = true := by rw [Line.isReadable, h]
  rw [assigned, List.takeWhile_cons, if_pos hr, List.mapIdx_cons, assigned]
  have hf : (fun i => Line.setting? (sectionAfter sectionName ((line :: rest).take (i + 1)))
        (.line source (number + (i + 1)))) =
      fun i => Line.setting? (sectionAfter ((Line.header? line).getD sectionName) (rest.take i))
        (.line source (number + 1 + i)) := by
    funext i
    rw [List.take_succ_cons, sectionAfter_cons, ← Nat.add_assoc, Nat.add_right_comm]
  rw [hf, List.take_zero, Nat.add_zero]
  change (Line.setting? sectionName _ line :: _).reduceOption = _
  cases Line.setting? sectionName (.line source number) line with
  | none => rfl
  | some x => rfl

theorem fst_readLines (s : Settings) (source sectionName : Bytes) (number : Nat)
    (ls : List Bytes) :
    (s.readLines source number sectionName ls).1 =
      s.storeAll (assigned source number sectionName ls) := by
  induction ls generalizing number sectionName s with
  | nil => rfl
  | cons line rest ih =>
      rw [readLines]
      rcases h : Line.read line with cause | what
      · rw [assigned_cons_of_error rest h]
        rfl
      rw [assigned_cons_of_ok rest h, storeAll_append, Line.setting?, Line.header?, h]
      cases what with
      | blank => exact ih _ _ _
      | header name => exact ih _ _ _
      | assignment key value => exact ih _ _ _

/-- **A text** stores its assignments. -/
theorem fst_readText (s : Settings) (source content : Bytes) :
    (s.readText source content).1 = s.storeAll (assigned source 1 [] (Text.lines content)) :=
  fst_readLines s source [] 1 _

theorem mem_assigned {source sectionName : Bytes} {number : Nat} {ls : List Bytes}
    (h : x ∈ assigned source number sectionName ls) :
    (∃ i, x.origin = .line source i) ∧ 0x3a ∉ x.key := by
  obtain ⟨i, hi, e⟩ := List.mem_mapIdx.mp (List.reduceOption_mem_iff.mp h)
  obtain ⟨ho, hk⟩ := Line.setting?_eq_some e
  exact ⟨⟨_, ho⟩, hk⟩

end Settings

end CurveKeys
