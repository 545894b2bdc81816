import CurveKeys.Proofs.Bytes.Text
import CurveKeys.Proofs.Settings.Store
import CurveKeys.Settings.Read
import Mathlib.Data.List.Forall2
import Mathlib.Data.List.ReduceOption
import Mathlib.Data.List.TakeWhile

/-!
# Settings — what arguments say

Arguments that can be read are taken one after the other: each option is stored, each other argument
is added to the positional ones.  So of several values for a key the last one counts.

* `Settings.take`: what one argument does.
* `Settings.readArguments_eq`: arguments that can be read do what each of them does, in order.
* `Settings.string?_takeAll`: the last value for a key is the one that is found.
* `Settings.fst_readArguments`: of any arguments, those in front of the first that cannot be read
  are taken; whether there is such an argument does not depend on the settings
  (`Settings.snd_readArguments_eq_none_iff`).
* `Settings.given`: the options among them, and `Settings.positional_readArguments`: the others.
-/

namespace CurveKeys

namespace Argument

/-- The text of an argument that is no option. -/
def text? : Argument → Option Bytes
  | positional text => some text
  | option _ _      => none

/-- The value that an argument gives to a key. -/
def value? (key : Bytes) : Argument → Option Bytes
  | positional _      => none
  | option name value => if key = name then some value else none

/-- The setting that an argument stores. -/
def setting? : Argument → Option Setting
  | positional _     => none
  | option key value => some ⟨[], key, value, .commandLine⟩

end Argument

/-! ### Keys -/

theorem isKeyOctet_of_mem {key : Bytes} {c : UInt8} (h : isValidKey key = true) (hc : c ∈ key) :
    isKeyOctet c = true := by
  rw [isValidKey, Bool.and_eq_true, List.all_eq_true] at h
  exact h.2 c hc

theorem not_mem_of_isValidKey {key : Bytes} {c : UInt8} (h : isValidKey key = true)
    (hc : isKeyOctet c = false) : c ∉ key :=
  fun hm => Bool.false_ne_true (hc.symm.trans (isKeyOctet_of_mem h hm))

/-- No valid key has a colon. -/
theorem colon_not_mem_of_isValidKey {key : Bytes} (h : isValidKey key = true) : 0x3a ∉ key :=
  not_mem_of_isValidKey h (by decide)

namespace Argument

theorem readOption_eq_some {s : Bytes} {x : Argument} (h : readOption s = some x) :
    ∃ key value, x = .option key value ∧ isValidKey key = true := by
  rw [readOption] at h
  generalize (Text.splitFirst? 0x3d s).getD (bareKey s) = kv at h
  obtain ⟨key, value⟩ := kv
  simp only at h
  split_ifs at h with hk
  cases h
  exact ⟨key, value, rfl, hk⟩

/-- An option begins with a dash that has something after it. -/
def IsOption (a : Bytes) : Prop := a.head? = some 0x2d ∧ 2 ≤ a.length

instance : DecidablePred IsOption :=
  fun a => inferInstanceAs (Decidable (a.head? = some 0x2d ∧ 2 ≤ a.length))

/-- **An argument that is read** says itself, unless it is an option; the key of an option is
valid. -/
theorem read_cases {a : Bytes} {x : Argument} (h : read a = some x) :
    (¬ IsOption a ∧ x = .positional a) ∨
      (IsOption a ∧ ∃ key value, x = .option key value ∧ isValidKey key = true) := by
  rw [read.eq_def] at h
  split at h
  · exact .inr ⟨⟨rfl, by simp⟩, readOption_eq_some h⟩
  · exact .inr ⟨⟨rfl, by simp⟩, readOption_eq_some h⟩
  · rename_i hn₁ hn₂
    cases h
    refine .inl ⟨?_, rfl⟩
    rintro ⟨hd, hl⟩
    obtain ⟨c, rest, rfl⟩ : ∃ c rest, a = 0x2d :: c :: rest := by
      rcases a with _ | ⟨b, _ | ⟨c, rest⟩⟩
      · cases hd
      · exact absurd hl (by simp)
      · exact ⟨c, rest, by rw [Option.some.inj hd]⟩
    exact hn₂ c rest rfl

end Argument

namespace Settings

variable {s : Settings} {said : List Argument}

/-- What an argument does to the settings. -/
def take (s : Settings) : Argument → Settings
  | .positional text  => { s with positional := s.positional ++ [text] }
  | .option key value => s.store ⟨[], key, value, .commandLine⟩

/-- What arguments do to the settings, one after the other. -/
def takeAll (s : Settings) : List Argument → Settings
  | []        => s
  | x :: said => (s.take x).takeAll said

/-! ### Reading -/

theorem readMoreArguments_eq {arguments : List Bytes} (index : Nat) (s : Settings)
    (h : List.Forall₂ (fun argument x => Argument.read argument = some x) arguments said) :
    s.readMoreArguments index arguments = (s.takeAll said, none) := by
  induction h generalizing index s with
  | nil => rfl
  | @cons argument x _ _ hx _ ih =>
      rw [readMoreArguments, hx]
      cases x with
      | positional text => exact ih (index + 1) _
      | option key value => exact ih (index + 1) _

/-- **Arguments that can be read** do what each of them does, in order. -/
theorem readArguments_eq {arguments : List Bytes} (s : Settings) {what : Bytes → Argument}
    (h : ∀ argument ∈ arguments, 0 ∉ argument ∧ Argument.read argument = some (what argument)) :
    s.readArguments arguments =
      ({ s with positional := [] }.takeAll (arguments.map what), none) := by
  have hn : arguments.map Bytes.upToNul = arguments :=
    (List.map_congr_left fun a ha => Bytes.upToNul_eq_self (h a ha).1).trans (List.map_id _)
  rw [readArguments, hn]
  refine readMoreArguments_eq 1 _ (List.forall₂_map_right_iff.mpr ?_)
  exact List.forall₂_same.mpr fun a ha => (h a ha).2

/-- What arguments say, up to the first that cannot be read; each ends at its first zero octet. -/
def saidBy (arguments : List Bytes) : List Argument :=
  ((arguments.map fun a => Argument.read a.upToNul).takeWhile Option.isSome).reduceOption

/-- The options among arguments, up to the first argument that cannot be read. -/
def given (arguments : List Bytes) : List Setting := (saidBy arguments).filterMap Argument.setting?

theorem saidBy_cons_of_none {argument : Bytes} (rest : List Bytes)
    (h : Argument.read argument.upToNul = none) : saidBy (argument :: rest) = [] := by
  rw [saidBy, List.map_cons, List.takeWhile_cons, h]
  rfl

theorem saidBy_cons_of_some {argument : Bytes} {x : Argument} (rest : List Bytes)
    (h : Argument.read argument.upToNul = some x) :
    saidBy (argument :: rest) = x :: saidBy rest := by
  rw [saidBy, List.map_cons, List.takeWhile_cons, h]
  exact List.reduceOption_cons_of_some _ _

/-- **Any arguments**: those in front of the first that cannot be read are taken. -/
theorem fst_readArguments (s : Settings) (arguments : List Bytes) :
    (s.readArguments arguments).1 = { s with positional := [] }.takeAll (saidBy arguments) := by
  rw [readArguments]
  generalize { s with positional := [] } = s
  generalize 1 = index
  induction arguments generalizing index s with
  | nil => rfl
  | cons argument rest ih =>
      rw [List.map_cons, readMoreArguments]
      rcases h : Argument.read argument.upToNul with _ | x
      · rw [saidBy_cons_of_none rest h]
        rfl
      · rw [saidBy_cons_of_some rest h]
        cases x with
        | positional text => exact ih _ _
        | option key value => exact ih _ _

/-- Whether arguments can be read does not depend on the settings. -/
theorem snd_readArguments_eq_none_iff (s : Settings) (arguments : List Bytes) :
    (s.readArguments arguments).2 = none ↔
      ∀ argument ∈ arguments, (Argument.read argument.upToNul).isSome := by
  rw [readArguments]
  generalize { s with positional := [] } = s
  generalize 1 = index
  induction arguments generalizing index s with
  | nil => exact iff_of_true rfl nofun
  | cons argument rest ih =>
      rw [List.map_cons, readMoreArguments, List.forall_mem_cons]
      rcases h : Argument.read argument.upToNul with _ | x
      · exact iff_of_false nofun fun hn => nomatch hn.1
      · rw [← ih (s.take x) (index + 1)]
        cases x with
        | positional text => exact (and_iff_right rfl).symm
        | option key value => exact (and_iff_right rfl).symm

/-! ### What stands in the settings then -/

theorem positional_take (s : Settings) (x : Argument) :
    (s.take x).positional = s.positional ++ x.text?.toList := by
  cases x with
  | positional text => rfl
  | option key value => exact (positional_store _ _).trans (List.append_nil _).symm

theorem string?_take (s : Settings) (x : Argument) (key : Bytes) :
    (s.take x).string? key = (x.value? key).or (s.string? key) := by
  cases x with
  | positional text => rfl
  | option name value =>
      rw [take, string?_store_option, Argument.value?]
      split_ifs <;> rfl

/-- The texts that are no options come in their order. -/
theorem positional_takeAll (s : Settings) (said : List Argument) :
    (s.takeAll said).positional = s.positional ++ said.filterMap Argument.text? := by
  induction said generalizing s with
  | nil => exact (List.append_nil _).symm
  | cons x said ih =>
      rw [takeAll, ih, positional_take, List.append_assoc, List.filterMap_cons]
      cases x.text? <;> rfl

/-- The options are stored one after the other. -/
theorem entries_takeAll (s : Settings) (said : List Argument) :
    (s.takeAll said).entries = (s.storeAll (said.filterMap Argument.setting?)).entries := by
  induction said generalizing s with
  | nil => rfl
  | cons x said ih =>
      rw [takeAll, ih]
      cases x with
      | positional text =>
          have h : (s.take (.positional text)).entries = s.entries := rfl
          exact entries_storeAll_congr h _
      | option key value => rfl

/-- An option remembers that it is one, and its key has no colon. -/
theorem mem_given {arguments : List Bytes} {x : Setting} (h : x ∈ given arguments) :
    x.origin = .commandLine ∧ 0x3a ∉ x.key := by
  obtain ⟨a, ha, hx⟩ := List.mem_filterMap.mp h
  have hr := (List.takeWhile_prefix _).subset (List.reduceOption_mem_iff.mp ha)
  obtain ⟨b, -, hb⟩ := List.mem_map.mp hr
  rcases Argument.read_cases hb with ⟨-, rfl⟩ | ⟨-, key, value, rfl, hk⟩
  · cases hx
  · cases hx
    exact ⟨rfl, colon_not_mem_of_isValidKey hk⟩

theorem origin_ne_default_of_given {arguments : List Bytes} :
    ∀ x ∈ given arguments, x.origin ≠ .default := by
  intro x hx
  rw [(mem_given hx).1]
  exact nofun

@[simp] theorem explicit_given (arguments : List Bytes) :
    explicit (given arguments) = given arguments :=
  explicit_eq_self origin_ne_default_of_given

@[simp] theorem defaults_given (arguments : List Bytes) : defaults (given arguments) = [] :=
  defaults_eq_nil origin_ne_default_of_given

/-- **The arguments that are no options** become the positional ones, in their order, whatever the
arguments before were. -/
theorem positional_readArguments (s : Settings) {arguments : List Bytes}
    (h : ∀ argument ∈ arguments, (Argument.read argument.upToNul).isSome) :
    (s.readArguments arguments).1.positional =
      (arguments.map Bytes.upToNul).filter fun a => ¬ Argument.IsOption a := by
  rw [fst_readArguments, positional_takeAll, List.nil_append]
  induction arguments with
  | nil => rfl
  | cons argument rest ih =>
      obtain ⟨ha, hr⟩ := List.forall_mem_cons.mp h
      obtain ⟨x, hx⟩ := Option.isSome_iff_exists.mp ha
      rw [saidBy_cons_of_some rest hx, List.filterMap_cons, List.map_cons, List.filter_cons, ih hr]
      rcases Argument.read_cases hx with ⟨hn, rfl⟩ | ⟨ho, key, value, rfl, -⟩
      · rw [if_pos (decide_eq_true hn)]
        rfl
      · rw [if_neg (by simpa using ho)]
        rfl

/-- **The last value** that arguments give to a key is found; without any, the value it had. -/
theorem string?_takeAll (s : Settings) (said : List Argument) (key : Bytes) :
    (s.takeAll said).string? key =
      (said.filterMap (Argument.value? key)).getLast?.or (s.string? key) := by
  induction said generalizing s with
  | nil => rfl
  | cons x said ih =>
      rw [takeAll, ih, string?_take, ← Option.or_assoc, List.filterMap_cons]
      cases x.value? key with
      | none => rw [Option.or_none]
      | some v =>
          refine congrArg (Option.or · _) ?_
          rw [List.getLast?_cons]
          cases (said.filterMap (Argument.value? key)).getLast? <;> rfl

end Settings

end CurveKeys
