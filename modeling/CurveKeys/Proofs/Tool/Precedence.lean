import CurveKeys.Proofs.Record
import CurveKeys.Proofs.Settings.History
import CurveKeys.Tool.Setup

/-!
# Tool — which setting counts

The command line is read before the file, to find the file, and once more after it.  So an option
counts before an assignment of the file, and an assignment before a default, whatever the order in
which they were stored.

* `Tool.fileSettings`: the assignments of the file that the options name.
* `Tool.loadSettings_eq_ok`: settings that are loaded have a history.
* `Tool.loadSettings_precedence`: the value that counts, for every key.
-/

namespace CurveKeys.Tool

open Settings

variable {contentOf : Bytes → Option Bytes} {arguments : List Bytes} {s : Settings} {key : Bytes}

/-- The value that settings outside of sections give to a key last. -/
def lastValue (key : Bytes) (xs : List Setting) : Option Bytes :=
  (lastAt key [] xs).map Setting.value

/-- The assignments of the file that the last option for it names; none without such an option. -/
def fileSettings (contentOf : Bytes → Option Bytes) (arguments : List Bytes) : List Setting :=
  match lastValue (Bytes.ascii "conf") (given arguments) with
  | none      => []
  | some path => assignedIn path (contentOf path)

/-- The value that holds where nothing is set. -/
def builtIn? (key : Bytes) : Option Bytes :=
  if key = Bytes.ascii "loglevel" then some defaultLevel
  else if key = Bytes.ascii "printtoconsole" then some (Bytes.ascii "1")
  else none

/-- The two defaults, as they are stored. -/
def builtIn : List Setting :=
  [⟨[], Bytes.ascii "loglevel", defaultLevel, .default⟩,
   ⟨[], Bytes.ascii "printtoconsole", Bytes.ascii "1", .default⟩]

theorem lastValue_append (xs ys : List Setting) :
    lastValue key (xs ++ ys) = (lastValue key ys).or (lastValue key xs) := by
  rw [lastValue, lastAt_append, Option.map_or]
  rfl

theorem lastValue_singleton (name value : Bytes) (origin : Origin) :
    lastValue key [⟨[], name, value, origin⟩] = if key = name then some value else none := by
  rw [lastValue, lastAt_singleton]
  by_cases h : key = name
  · rw [if_pos ⟨rfl, h.symm⟩, if_pos h]
    rfl
  · rw [if_neg fun e => h e.2.symm, if_neg h]
    rfl

theorem lastValue_builtIn (key : Bytes) : lastValue key builtIn = builtIn? key := by
  have h : Bytes.ascii "loglevel" ≠ Bytes.ascii "printtoconsole" := by decide
  rw [builtIn, ← List.singleton_append, lastValue_append, lastValue_singleton, lastValue_singleton,
    builtIn?]
  by_cases hl : key = Bytes.ascii "loglevel"
  · rw [if_neg (hl ▸ h)]
    rfl
  · rw [if_neg hl, if_neg hl, Option.or_none]

theorem explicit_builtIn : explicit builtIn = [] := rfl

theorem defaults_builtIn : defaults builtIn = builtIn := rfl

/-! ### Loading -/

/-- What is done to load settings. -/
def loading (contentOf : Bytes → Option Bytes) (arguments : List Bytes) : List Settings.Action :=
  (match lastValue (Bytes.ascii "conf") (given arguments) with
    | none      => [.readArguments arguments]
    | some path =>
      [.readArguments arguments, .readFile path (contentOf path), .readArguments arguments])
    ++ [.setDefault (Bytes.ascii "loglevel") defaultLevel [],
        .setDefault (Bytes.ascii "printtoconsole") (Bytes.ascii "1") []]

theorem clear_not_mem_loading : .clear ∉ loading contentOf arguments := by
  rw [loading]
  cases lastValue (Bytes.ascii "conf") (given arguments) <;> simp

theorem withoutColon_loading : ∀ action ∈ loading contentOf arguments, action.WithoutColon := by
  have hl : 0x3a ∉ Bytes.ascii "loglevel" := by decide
  have hp : 0x3a ∉ Bytes.ascii "printtoconsole" := by decide
  rw [loading]
  cases lastValue (Bytes.ascii "conf") (given arguments) <;>
    simp [Settings.Action.WithoutColon, hl, hp]

/-- What is stored in the course of loading. -/
theorem storedBy_loading :
    storedBy (loading contentOf arguments) =
      match lastValue (Bytes.ascii "conf") (given arguments) with
      | none      => given arguments ++ builtIn
      | some path =>
        given arguments ++ (assignedIn path (contentOf path) ++ (given arguments ++ builtIn)) := by
  rw [storedBy_eq clear_not_mem_loading, loading]
  cases lastValue (Bytes.ascii "conf") (given arguments) <;> rfl

/-- Settings outside of sections, by what was stored. -/
theorem string?_run {actions : List Settings.Action} (h : ∀ action ∈ actions, action.WithoutColon)
    (hk : 0x3a ∉ key) :
    (run .empty actions).string? key =
      (lastValue key (explicit (storedBy actions))).or
        (lastValue key (defaults (storedBy actions))) := by
  rw [string?, find?_run h hk, settled, Option.map_or]
  rfl

/-- The name of the file is the last value of its option. -/
theorem configPath?_readArguments (arguments : List Bytes) :
    configPath? (Settings.empty.readArguments arguments).1 =
      lastValue (Bytes.ascii "conf") (given arguments) := by
  have hc : 0x3a ∉ Bytes.ascii "conf" := by decide
  have hs : storedBy [.readArguments arguments] = given arguments := List.append_nil _
  change (run .empty [.readArguments arguments]).string? _ = _
  rw [string?_run (by simp [Settings.Action.WithoutColon]) hc, hs, explicit_given, defaults_given]
  exact Option.or_none

theorem checked_eq_ok_iff {read : Settings × Option ReadError} :
    checked read = .ok s ↔ read = (s, none) := by
  rcases read with ⟨t, _ | cause⟩
  · exact ⟨fun h => by cases h; rfl, fun h => by cases h; rfl⟩
  · exact iff_of_false nofun nofun

/-- **Settings that are loaded** have a history, and all arguments could be read. -/
theorem loadSettings_eq_ok (h : loadSettings contentOf arguments = .ok s) :
    s = run .empty (loading contentOf arguments) ∧
      (Settings.empty.readArguments arguments).2 = none := by
  obtain ⟨s₁, h₁, h⟩ := Record.bind_eq_ok_iff.mp h
  have hread : Settings.empty.readArguments arguments = (s₁, none) := checked_eq_ok_iff.mp h₁
  have hpath := configPath?_readArguments arguments
  rw [hread] at hpath
  refine ⟨?_, by rw [hread]⟩
  rw [loading]
  rw [hpath] at h
  cases hv : lastValue (Bytes.ascii "conf") (given arguments) with
  | none =>
      rw [hv] at h
      cases h
      change _ = withDefaults (Settings.empty.readArguments arguments).1
      rw [hread]
  | some path =>
      rw [hv] at h
      obtain ⟨s₂, h₂, h⟩ := Record.bind_eq_ok_iff.mp h
      obtain ⟨s₃, h₃, h⟩ := Record.bind_eq_ok_iff.mp h
      cases h
      change _ = withDefaults (((Settings.empty.readArguments arguments).1.readFrom path
        (contentOf path)).1.readArguments arguments).1
      rw [hread, checked_eq_ok_iff.mp h₂, checked_eq_ok_iff.mp h₃]

/-- What is loaded was set by options and by the file, in this order of precedence. -/
theorem string?_loading (hk : 0x3a ∉ key) :
    (run .empty (loading contentOf arguments)).string? key =
      (lastValue key (given arguments)).or
        ((lastValue key (fileSettings contentOf arguments)).or (builtIn? key)) := by
  rw [string?_run withoutColon_loading hk, storedBy_loading, fileSettings, ← lastValue_builtIn]
  cases lastValue (Bytes.ascii "conf") (given arguments) with
  | none =>
      simp only [explicit_append, defaults_append, explicit_given, defaults_given, explicit_builtIn,
        defaults_builtIn, List.append_nil, List.nil_append]
      rfl
  | some path =>
      simp only [explicit_append, defaults_append, explicit_given, defaults_given,
        explicit_assignedIn, defaults_assignedIn, explicit_builtIn, defaults_builtIn,
        List.append_nil, List.nil_append, lastValue_append]
      -- The options were stored before the file and after it; the second time decides.
      cases lastValue key (given arguments) with
      | none => rw [Option.none_or, Option.or_none, Option.none_or]
      | some v => rfl

theorem positional_withDefaults (s : Settings) : (withDefaults s).positional = s.positional :=
  (positional_store _ _).trans (positional_store _ _)

/-- **Which setting counts.**  When settings are loaded, every key has the value of its last option,
else the last value that the file gives it outside of sections, else its default, else none; and the
arguments that are no options are the positional ones, in their order.  Arguments that could be read
once can be read again. -/
theorem loadSettings_precedence (contentOf : Bytes → Option Bytes) (arguments : List Bytes) :
    (∀ s, loadSettings contentOf arguments = .ok s →
      (∀ key, 0x3a ∉ key →
        s.string? key =
          (lastValue key (given arguments)).or
            ((lastValue key (fileSettings contentOf arguments)).or (builtIn? key))) ∧
      s.positional = (arguments.map Bytes.upToNul).filter fun a => ¬ Argument.IsOption a) ∧
    ∀ s : Settings, (Settings.empty.readArguments arguments).2 = none →
      (s.readArguments arguments).2 = none := by
  refine ⟨fun s h => ?_, fun s h => ?_⟩
  · obtain ⟨rfl, ha⟩ := loadSettings_eq_ok h
    refine ⟨fun key hk => string?_loading hk, ?_⟩
    rw [snd_readArguments_eq_none_iff] at ha
    rw [loading]
    cases lastValue (Bytes.ascii "conf") (given arguments) with
    | none => exact (positional_withDefaults _).trans (positional_readArguments _ ha)
    | some path => exact (positional_withDefaults _).trans (positional_readArguments _ ha)
  · rw [snd_readArguments_eq_none_iff] at h ⊢
    exact h

/-- Options before and after, negated and repeated, and a file with sections and a file option. -/
def someArguments : List Bytes := ["--conf=f", "x", "-a=1", "--nob", "--a=2", "-"].map Bytes.ascii

def someContent : Bytes :=
  Text.unlines
    (["a=7", "c=4", "[s]", "c=1", "[]", "c=3", "b", "conf=z", "loglevel=off"].map Bytes.ascii)

theorem loadSettings_precedence_someArguments :
    ∃ s, loadSettings (fun _ => some someContent) someArguments = .ok s ∧
      s.string? [0x61] = some [0x32] ∧ s.string? [0x62] = some (Bytes.ascii "false") ∧
      s.string? [0x63] = some [0x33] ∧ s.string? (Bytes.ascii "conf") = some [0x66] ∧
      s.string? (Bytes.ascii "printtoconsole") = some [0x31] ∧
      s.positional = [[0x78], [0x2d]] ∧ (s.readArguments someArguments).2 = none := by
  obtain ⟨hs, hagain⟩ := loadSettings_precedence (fun _ => some someContent) someArguments
  have h : (loadSettings (fun _ => some someContent) someArguments).toOption.isSome = true := by
    decide
  cases e : loadSettings (fun _ => some someContent) someArguments with
  | error cause => rw [e] at h; cases h
  | ok s =>
      obtain ⟨hv, hp⟩ := hs s e
      refine ⟨s, rfl, ?_, ?_, ?_, ?_, ?_, hp.trans (by decide), hagain s (by decide)⟩
      · exact (hv _ (by decide)).trans (by decide)
      · exact (hv _ (by decide)).trans (by decide)
      · exact (hv _ (by decide)).trans (by decide)
      · exact (hv _ (by decide)).trans (by decide)
      · exact (hv _ (by decide)).trans (by decide)

end CurveKeys.Tool
