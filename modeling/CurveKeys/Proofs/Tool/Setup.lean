import CurveKeys.Proofs.Settings.Arguments
import CurveKeys.Tool.Setup

/-!
# Tool — plain invocations

An invocation is plain when its options are the flags of the commands, in any places and any number
of times.  The tool is set up for it whatever the files hold, and the settings are what the flags
say.

* `Invocation`: what a plain invocation is.
* `Invocation.string?_settings`: what is set under a key.
* `Invocation.setUp_eq`: what is set up.
-/

namespace CurveKeys

/-- No zero octet, and no dash in front. -/
def Bytes.Plain (a : Bytes) : Prop := 0 ∉ a ∧ a.head? ≠ some 0x2d

instance : DecidablePred Bytes.Plain :=
  fun a => inferInstanceAs (Decidable (0 ∉ a ∧ a.head? ≠ some 0x2d))

theorem Argument.read_plain {a : Bytes} (h : a.Plain) : read a = some (.positional a) := by
  rw [read.eq_def]
  split
  · exact absurd rfl h.2
  · exact absurd rfl h.2
  · rfl

namespace Tool

/-! ### Flags -/

/-- The options that say how a command is to be run. -/
inductive Flag where
  | uncompressed
  | strict
  deriving DecidableEq

namespace Flag

def name : Flag → String
  | uncompressed => "uncompressed"
  | strict       => "strict"

/-- The keys that flags set. -/
def keys : List Bytes := [uncompressed, strict].map fun f => Bytes.ascii f.name

/-- The argument that gives the flag. -/
def text (f : Flag) : Bytes := Bytes.ascii "--" ++ Bytes.ascii f.name

/-- The flag that an argument gives. -/
def of? (a : Bytes) : Option Flag :=
  if a = uncompressed.text then some uncompressed
  else if a = strict.text then some strict
  else none

theorem text_injective : Function.Injective text := by
  intro f g h
  cases f <;> cases g <;> first | rfl | exact absurd h (by decide)

theorem name_injective {f g : Flag} (h : Bytes.ascii f.name = Bytes.ascii g.name) : f = g :=
  text_injective (congrArg (Bytes.ascii "--" ++ ·) h)

theorem name_mem_keys (f : Flag) : Bytes.ascii f.name ∈ keys := by
  cases f <;> decide

theorem of?_eq_some_iff {a : Bytes} {f : Flag} : of? a = some f ↔ a = f.text := by
  refine ⟨fun h => ?_, ?_⟩
  · rw [of?] at h
    split_ifs at h with hu hs
    · cases h
      exact hu
    · cases h
      exact hs
  · rintro rfl
    cases f <;> rfl

end Flag

/-- Arguments with the given positional ones, in their order, and the flags that are given. -/
structure Invocation (positional : List Bytes) (flags : Flag → Bool) (arguments : List Bytes) :
    Prop where
  positional : (arguments.filter fun a => (Flag.of? a).isNone) = positional
  flags : ∀ f : Flag, f.text ∈ arguments ↔ flags f = true

/-- Arguments without flags. -/
theorem Invocation.bare {arguments : List Bytes} (h : ∀ a ∈ arguments, a.Plain) :
    Invocation arguments (fun _ => false) arguments where
  positional := List.filter_eq_self.mpr fun a ha => by
    rcases hf : Flag.of? a with _ | f
    · rfl
    · obtain rfl := Flag.of?_eq_some_iff.mp hf
      cases f <;> exact absurd (h _ ha) (by decide)
  flags f := iff_of_false (fun hf => by cases f <;> exact absurd (h _ hf) (by decide)) nofun

/-! ### What the arguments say -/

/-- What an argument of a plain invocation says. -/
def reading (a : Bytes) : Argument :=
  match Flag.of? a with
  | some f => .option (Bytes.ascii f.name) (Bytes.ascii "true")
  | none   => .positional a

theorem read_eq_reading {a : Bytes} (h : Flag.of? a = none → a.Plain) :
    0 ∉ a ∧ Argument.read a = some (reading a) := by
  rw [reading]
  rcases hf : Flag.of? a with _ | f
  · exact ⟨(h hf).1, Argument.read_plain (h hf)⟩
  · obtain rfl := Flag.of?_eq_some_iff.mp hf
    cases f <;> decide

theorem text?_reading (a : Bytes) :
    (reading a).text? = if (Flag.of? a).isNone then some a else none := by
  rw [reading]
  cases Flag.of? a <;> rfl

/-- Only the flags give values: each the value `true`, to its own key. -/
theorem value?_reading_eq_some_iff {a key v : Bytes} :
    (reading a).value? key = some v ↔
      v = Bytes.ascii "true" ∧ ∃ f : Flag, key = Bytes.ascii f.name ∧ a = f.text := by
  rw [reading]
  simp only [← Flag.of?_eq_some_iff]
  rcases Flag.of? a with _ | f
  · exact ⟨nofun, fun h => nomatch h.2⟩
  · simp only [Argument.value?, Option.some.injEq, exists_eq_right', Option.ite_none_right_eq_some]
    exact ⟨fun h => ⟨h.2.symm, h.1⟩, fun h => ⟨h.2, h.1.symm⟩⟩

namespace Invocation

variable {positional arguments : List Bytes} {flags : Flag → Bool}

/-- The settings after the arguments were read, before the defaults. -/
def settings (arguments : List Bytes) : Settings :=
  Settings.empty.takeAll (arguments.map reading)

theorem readArguments_eq (h : Invocation positional flags arguments)
    (hp : ∀ a ∈ positional, a.Plain) :
    Settings.empty.readArguments arguments = (settings arguments, none) := by
  refine Settings.readArguments_eq _ fun a ha => read_eq_reading fun hf => hp a ?_
  rw [← h.positional, List.mem_filter, hf]
  exact ⟨ha, rfl⟩

theorem positional_settings (h : Invocation positional flags arguments) :
    (settings arguments).positional = positional := by
  rw [settings, Settings.positional_takeAll, ← h.positional, List.filterMap_map]
  refine (congrArg (List.filterMap · arguments) (funext text?_reading)).trans ?_
  exact congrFun List.filterMap_eq_filter arguments

/-- **What is set** under a key: the value `true`, if the flag of the key is given. -/
theorem string?_settings (h : Invocation positional flags arguments) (key : Bytes) :
    (settings arguments).string? key = some (Bytes.ascii "true") ∧
        (∃ f : Flag, key = Bytes.ascii f.name ∧ flags f = true) ∨
      (settings arguments).string? key = none ∧
        ∀ f : Flag, key = Bytes.ascii f.name → flags f = false := by
  rw [settings, Settings.string?_takeAll]
  rcases hl : ((arguments.map reading).filterMap (Argument.value? key)).getLast? with _ | v
  · refine .inr ⟨rfl, fun f hk => Bool.eq_false_iff.mpr fun hf => ?_⟩
    rw [List.getLast?_eq_none_iff, List.filterMap_eq_nil_iff] at hl
    have hv := hl _ (List.mem_map_of_mem ((h.flags f).mpr hf))
    rw [value?_reading_eq_some_iff.mpr ⟨rfl, f, hk, rfl⟩] at hv
    cases hv
  · obtain ⟨x, hx, hv⟩ := List.mem_filterMap.mp (List.mem_of_getLast? hl)
    obtain ⟨a, ha, rfl⟩ := List.mem_map.mp hx
    obtain ⟨rfl, f, hk, rfl⟩ := value?_reading_eq_some_iff.mp hv
    exact .inl ⟨rfl, f, hk, (h.flags f).mp ha⟩

/-- A key of no flag has no value. -/
theorem string?_settings_other (h : Invocation positional flags arguments) {key : Bytes}
    (hk : key ∉ Flag.keys) : (settings arguments).string? key = none := by
  rcases h.string?_settings key with ⟨-, f, rfl, -⟩ | ⟨hn, -⟩
  · exact absurd f.name_mem_keys hk
  · exact hn

theorem switch_settings_flag (h : Invocation positional flags arguments) (f : Flag) :
    (settings arguments).switch f.name false = flags f := by
  rw [Settings.switch, Settings.bool?]
  rcases h.string?_settings (Bytes.ascii f.name) with ⟨hs, g, hg, hv⟩ | ⟨hs, hv⟩
  · rw [hs, Flag.name_injective hg, hv]
    decide
  · rw [hs, hv f rfl]
    rfl

theorem switch_settings_other (h : Invocation positional flags arguments) {key : String}
    (hk : Bytes.ascii key ∉ Flag.keys) :
    (settings arguments).switch key false = false := by
  rw [Settings.switch, Settings.bool?, h.string?_settings_other hk]
  rfl

/-! ### Setting up -/

/-- The defaults are found where nothing else was set. -/
theorem string?_withDefaults (h : Invocation positional flags arguments) (key : Bytes) :
    (withDefaults (settings arguments)).string? key =
      if key = Bytes.ascii "printtoconsole" then some (Bytes.ascii "1")
      else if key = Bytes.ascii "loglevel" then some defaultLevel
      else (settings arguments).string? key := by
  have hl : (settings arguments).string? (Bytes.ascii "loglevel") = none :=
    h.string?_settings_other (by decide)
  have hc : (settings arguments).string? (Bytes.ascii "printtoconsole") = none :=
    h.string?_settings_other (by decide)
  rw [withDefaults, Settings.string?_setDefault, Settings.string?_setDefault _ _ _ hl]
  rw [Settings.string?_setDefault _ _ _ hl, if_neg (by decide), hc]

/-- All other keys keep what the arguments say. -/
theorem string?_withDefaults_other (h : Invocation positional flags arguments) {key : Bytes}
    (hk : key ∉ ["printtoconsole", "loglevel"].map Bytes.ascii) :
    (withDefaults (settings arguments)).string? key = (settings arguments).string? key := by
  have hc : key ≠ Bytes.ascii "printtoconsole" := fun e => hk (e ▸ List.mem_cons_self)
  have hl : key ≠ Bytes.ascii "loglevel" :=
    fun e => hk (e ▸ List.mem_cons_of_mem _ List.mem_cons_self)
  rw [h.string?_withDefaults, if_neg hc, if_neg hl]

theorem switch_withDefaults (h : Invocation positional flags arguments) {key : String}
    (hk : Bytes.ascii key ∉ ["printtoconsole", "loglevel"].map Bytes.ascii) :
    (withDefaults (settings arguments)).switch key false =
      (settings arguments).switch key false := by
  rw [Settings.switch, Settings.bool?, h.string?_withDefaults_other hk]
  rfl

theorem loadSettings_eq (h : Invocation positional flags arguments)
    (hp : ∀ a ∈ positional, a.Plain) (contentOf : Bytes → Option Bytes) :
    loadSettings contentOf arguments = .ok (withDefaults (settings arguments)) := by
  have hc : configPath? (settings arguments) = none := h.string?_settings_other (by decide)
  rw [loadSettings, h.readArguments_eq hp]
  simp only [checked, bind, Except.bind, hc]
  rfl

theorem openLogger_eq (h : Invocation positional flags arguments) (canAppend : Bytes → Bool) :
    ∃ opened, openLogger (withDefaults (settings arguments)) canAppend = .ok opened := by
  have hl : (withDefaults (settings arguments)).string? (Bytes.ascii "loglevel") =
      some defaultLevel := by
    rw [h.string?_withDefaults, if_neg (by decide), if_pos rfl]
  have hn : Level.ofName? defaultLevel = some .warn := by decide
  have hd : (withDefaults (settings arguments)).string? (Bytes.ascii "debug") = none := by
    rw [h.string?_withDefaults_other (by decide), h.string?_settings_other (by decide)]
  have hf : logPath? (withDefaults (settings arguments)) = none := by
    rw [logPath?, h.string?_withDefaults_other (by decide), h.string?_settings_other (by decide)]
    rfl
  rw [openLogger]
  simp only [hl, hn, hd, hf, Option.getD_some]
  exact ⟨_, rfl⟩

/-- **A plain invocation is set up**, whatever the files hold: its positional arguments, neither the
version nor help, and the form and the policy of its flags. -/
theorem setUp_eq (h : Invocation positional flags arguments) (hp : ∀ a ∈ positional, a.Plain)
    (contentOf : Bytes → Option Bytes) (canAppend : Bytes → Bool) :
    ∃ s opened, setUp contentOf canAppend arguments = .ok (s, opened) ∧
      s.positional = positional ∧
      s.switch "version" false = false ∧ s.switch "help" false = false ∧
      s.switch "uncompressed" false = flags .uncompressed ∧ s.policy = ⟨flags .strict⟩ := by
  obtain ⟨opened, ho⟩ := h.openLogger_eq canAppend
  refine ⟨withDefaults (settings arguments), opened, ?_, ?_, ?_, ?_, ?_, ?_⟩
  · rw [Tool.setUp, h.loadSettings_eq hp]
    change (openLogger _ canAppend >>= fun opened => _) = _
    rw [ho]
    rfl
  · rw [withDefaults, Settings.setDefault, Settings.setDefault, Settings.positional_store,
      Settings.positional_store, h.positional_settings]
  · rw [h.switch_withDefaults (by decide), h.switch_settings_other (by decide)]
  · rw [h.switch_withDefaults (by decide), h.switch_settings_other (by decide)]
  · rw [h.switch_withDefaults (by decide)]
    exact h.switch_settings_flag .uncompressed
  · rw [Settings.policy, h.switch_withDefaults (by decide), h.switch_withDefaults (by decide),
      h.switch_settings_other (by decide), Bool.false_or]
    exact congrArg Policy.mk (h.switch_settings_flag .strict)

end Invocation

end Tool

end CurveKeys
