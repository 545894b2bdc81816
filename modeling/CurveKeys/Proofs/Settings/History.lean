import CurveKeys.Proofs.Bytes.Text
import CurveKeys.Proofs.Settings.Texts
import Mathlib.Data.List.DropRight

/-!
# Settings — the store follows its history

Settings are changed by reading texts, files and arguments, by storing one setting or one default,
and by being cleared.  All that is found afterwards is told by the settings stored since they were
last cleared: under each key of each section the last one that was set, and without any the last
default.  The entry that is found is the setting as it was stored, with the place it came from.

* `Settings.Action`, `Settings.run`: what is done, one action after the other.
* `Settings.Action.stored`, `Settings.storedBy`: the settings that an action stores, and those that
  actions have stored since the last clearing.
* `Settings.find?_run`: what is found after any actions.
-/

namespace CurveKeys.Settings

/-- What can be done with settings.  A file comes with its content, if it can be opened. -/
inductive Action where
  | readText (source content : Bytes)
  | readFile (path : Bytes) (content? : Option Bytes)
  | readArguments (arguments : List Bytes)
  | set (key value sectionName : Bytes)
  | setDefault (key value sectionName : Bytes)
  | clear
  deriving DecidableEq

/-- The settings after an action. -/
def perform (s : Settings) : Action → Settings
  | .readText source content          => (s.readText source content).1
  | .readFile path content?           => (s.readFrom path content?).1
  | .readArguments arguments          => (s.readArguments arguments).1
  | .set key value sectionName        => s.set key value sectionName
  | .setDefault key value sectionName => s.setDefault key value sectionName
  | .clear                            => .empty

/-- The settings after actions, one after the other. -/
def run (s : Settings) (actions : List Action) : Settings := actions.foldl perform s

/-- The assignments of a file; there are none in one that cannot be opened or is too large. -/
def assignedIn (path : Bytes) : Option Bytes → List Setting
  | none         => []
  | some content =>
    if maxFileSize < content.length then [] else assigned path 1 [] (Text.lines content)

namespace Action

/-- The settings that an action stores, in their order, up to the first fault in what it reads. -/
def stored : Action → List Setting
  | .readText source content          => assigned source 1 [] (Text.lines content)
  | .readFile path content?           => assignedIn path content?
  | .readArguments arguments          => given arguments
  | .set key value sectionName        => [⟨sectionName, key, value, .assigned⟩]
  | .setDefault key value sectionName => [⟨sectionName, key, value, .default⟩]
  | .clear                            => []

/-- A key that an action names has no colon. -/
def WithoutColon : Action → Prop
  | .set key _ _ | .setDefault key _ _ => 0x3a ∉ key
  | _                                  => True

instance : DecidablePred WithoutColon
  | .set key _ _ | .setDefault key _ _ => inferInstanceAs (Decidable (0x3a ∉ key))
  | .readText _ _ | .readFile _ _ | .readArguments _ | .clear => inferInstanceAs (Decidable True)

end Action

/-- The settings that actions have stored since the last clearing. -/
def storedBy (actions : List Action) : List Setting :=
  (actions.rtakeWhile fun a => a ≠ .clear).flatMap Action.stored

variable {actions : List Action} {action : Action} {key : Bytes}

theorem storedBy_concat_clear : storedBy (actions ++ [.clear]) = [] := by
  rw [storedBy, List.rtakeWhile_concat, if_neg (by decide)]
  rfl

theorem storedBy_concat (h : action ≠ .clear) :
    storedBy (actions ++ [action]) = storedBy actions ++ action.stored := by
  rw [storedBy, List.rtakeWhile_concat, if_pos (decide_eq_true h), List.flatMap_append,
    List.flatMap_singleton]
  rfl

theorem run_concat (s : Settings) : s.run (actions ++ [action]) = (s.run actions).perform action :=
  List.foldl_append

/-- Without a clearing, all that was stored counts. -/
theorem storedBy_eq (h : .clear ∉ actions) : storedBy actions = actions.flatMap Action.stored := by
  rw [storedBy, List.rtakeWhile_eq_self_iff.mpr]
  intro a ha
  exact decide_eq_true fun e => h (e ▸ ha)

/-! ### What one action stores -/

theorem fst_readFrom (s : Settings) (path : Bytes) (content? : Option Bytes) :
    (s.readFrom path content?).1 = s.storeAll (assignedIn path content?) := by
  cases content? with
  | none => rfl
  | some content =>
      rw [readFrom, assignedIn]
      split_ifs
      · rfl
      · exact fst_readText s path content

theorem mem_assignedIn {path : Bytes} {content? : Option Bytes} {x : Setting}
    (h : x ∈ assignedIn path content?) : (∃ i, x.origin = .line path i) ∧ 0x3a ∉ x.key := by
  cases content? with
  | none => cases h
  | some content =>
      rw [assignedIn] at h
      split_ifs at h
      · cases h
      · exact mem_assigned h

theorem origin_ne_default_of_assignedIn {path : Bytes} {content? : Option Bytes} :
    ∀ x ∈ assignedIn path content?, x.origin ≠ .default := by
  intro x hx
  obtain ⟨⟨i, ho⟩, -⟩ := mem_assignedIn hx
  rw [ho]
  exact nofun

@[simp] theorem explicit_assignedIn (path : Bytes) (content? : Option Bytes) :
    explicit (assignedIn path content?) = assignedIn path content? :=
  explicit_eq_self origin_ne_default_of_assignedIn

@[simp] theorem defaults_assignedIn (path : Bytes) (content? : Option Bytes) :
    defaults (assignedIn path content?) = [] :=
  defaults_eq_nil origin_ne_default_of_assignedIn

/-- An action that does not clear the settings stores what it has to store. -/
theorem entries_perform (s : Settings) (h : action ≠ .clear) :
    (s.perform action).entries = (s.storeAll action.stored).entries := by
  cases action with
  | readText source content => rw [perform, fst_readText]; rfl
  | readFile path content? => rw [perform, fst_readFrom]; rfl
  | readArguments arguments =>
      have hs : { s with positional := [] }.entries = s.entries := rfl
      rw [perform, fst_readArguments, entries_takeAll]
      exact entries_storeAll_congr hs _
  | set key value sectionName => rfl
  | setDefault key value sectionName => rfl
  | clear => exact absurd rfl h

/-- No setting that an action stores has a colon in its key. -/
theorem Action.WithoutColon.stored (h : action.WithoutColon) {x : Setting}
    (hx : x ∈ action.stored) : 0x3a ∉ x.key := by
  cases action with
  | readText source content => exact (mem_assigned hx).2
  | readFile path content? => exact (mem_assignedIn hx).2
  | readArguments arguments => exact (mem_given hx).2
  | set key value sectionName =>
      obtain rfl := List.mem_singleton.mp hx
      exact h
  | setDefault key value sectionName =>
      obtain rfl := List.mem_singleton.mp hx
      exact h
  | clear => cases hx

/-! ### What many actions leave -/

/-- After actions the entries are those of the settings stored since the last clearing. -/
theorem entries_run (actions : List Action) :
    (run .empty actions).entries = (storeAll .empty (storedBy actions)).entries := by
  induction actions using List.reverseRecOn with
  | nil => rfl
  | append_singleton actions action ih =>
      rw [run_concat]
      by_cases h : action = .clear
      · rw [h, storedBy_concat_clear]
        rfl
      · rw [entries_perform _ h, storedBy_concat h, storeAll_append]
        exact entries_storeAll_congr ih _

theorem colon_not_mem_storedBy (h : ∀ action ∈ actions, action.WithoutColon) {x : Setting}
    (hx : x ∈ storedBy actions) : 0x3a ∉ x.key := by
  obtain ⟨action, ha, hx⟩ := List.mem_flatMap.mp hx
  exact (h action ((List.rtakeWhile_suffix _ _).subset ha)).stored hx

/-- **What is found** after actions whose keys have no colon. -/
theorem find?_run (h : ∀ action ∈ actions, action.WithoutColon) (hk : 0x3a ∉ key)
    (sectionName : Bytes) :
    (run .empty actions).find? key sectionName = settled key sectionName (storedBy actions) := by
  rw [find?, entries_run, ← find?]
  exact find?_storeAll hk fun x hx => colon_not_mem_storedBy h hx

/-- **The store follows its history**: under a key of a section stands the last setting that was set
there since the last clearing, and without any the last default.  What is stored under another key
or in another section does not change it. -/
theorem run_follows (h : ∀ action ∈ actions, action.WithoutColon) (hk : 0x3a ∉ key)
    (sectionName : Bytes) :
    (run .empty actions).find? key sectionName =
      (lastAt key sectionName (explicit (storedBy actions))).or
        (lastAt key sectionName (defaults (storedBy actions))) ∧
    ∀ (s : Settings) (x : Setting), 0x3a ∉ x.key → ¬ At key sectionName x →
      (s.store x).find? key sectionName = s.find? key sectionName := by
  classical
  refine ⟨find?_run h hk sectionName, fun s x hx hn => ?_⟩
  rw [find?_store_at s sectionName hx hk]
  exact if_neg fun hy => hn hy.1

/-- Two texts and their sections, with a header that opens no section, an option, and defaults. -/
def someActions : List Action :=
  [.set [0x61] [0x30] [0x73], .clear, .setDefault [0x61] [0x64] [0x73],
    .readText [0x66]
      (Text.unlines (["a=1", "[s] x", " a = '2'", "noa", "!", "a=4"].map Bytes.ascii)),
    .setDefault [0x61] [0x65] [0x73], .readArguments [Bytes.ascii "--a=9", [0x70]],
    .readText [] (Text.unlines [Bytes.ascii "[]", Bytes.ascii "b=7"])]

theorem run_follows_someActions :
    (run .empty someActions).find? [0x61] [0x73] =
        some ⟨[0x73], [0x61], Bytes.ascii "false", .line [0x66] 4⟩ ∧
      (run .empty someActions).find? [0x61] [] = some ⟨[], [0x61], [0x39], .commandLine⟩ ∧
      ((run .empty someActions).set [0x61] [0x35] []).find? [0x61] [0x73] =
        (run .empty someActions).find? [0x61] [0x73] := by
  have h : ∀ action ∈ someActions, action.WithoutColon := by decide
  have hk : (0x3a : UInt8) ∉ ([0x61] : Bytes) := by decide
  obtain ⟨hs, hother⟩ := run_follows h hk [0x73]
  obtain ⟨hn, -⟩ := run_follows h hk []
  exact ⟨hs.trans (by decide), hn.trans (by decide), hother _ _ (by decide) (by decide)⟩

end CurveKeys.Settings
