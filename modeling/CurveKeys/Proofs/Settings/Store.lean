import CurveKeys.Settings.Query
import Mathlib.Data.List.Induction
import Mathlib.Logic.Basic
import Mathlib.Tactic.SplitIfs

/-!
# Settings — what the store keeps

Storing a setting changes what is found under its full key, and under no other.  A default changes
nothing where a setting was set.  Where keys have no colon, a full key is one key of one section
only.

* `Settings.Yields`: a setting is a default, and one that was set stands at its place.
* `Settings.find?_store`: what is found after a setting was stored.
* `Settings.fullKey_inj`: what full keys tell apart.
* `Settings.find?_storeAll`: what is found after settings were stored one after the other: the last
  one set, and without any the last default (`Settings.settled`).
-/

namespace CurveKeys.Settings

variable {s : Settings} {setting : Setting}

/-! ### Entries in order -/

theorem lookup_entry (entry : Bytes × Setting) (rest : List (Bytes × Setting)) (other : Bytes) :
    (entry :: rest).lookup other = if other = entry.1 then some entry.2 else rest.lookup other := by
  split_ifs with h
  · rw [h, List.lookup_cons_self]
  · rw [List.lookup_cons, beq_false_of_ne h]

/-- A setting that is put in is found under its name, and all others as before.  Whether the names
were in order does not matter. -/
theorem lookup_insert (name other : Bytes) (setting : Setting) (entries : List (Bytes × Setting)) :
    (insert name setting entries).lookup other =
      if other = name then some setting else entries.lookup other := by
  induction entries with
  | nil => exact lookup_entry _ _ _
  | cons entry rest ih =>
      rw [insert]
      by_cases he : name = entry.1
      · rw [if_pos he, lookup_entry, lookup_entry, ← he]
        split_ifs <;> rfl
      by_cases hlt : name < entry.1
      · rw [if_neg he, if_pos hlt, lookup_entry]
      rw [if_neg he, if_neg hlt, lookup_entry, lookup_entry, ih]
      -- The setting goes further down, and its name is not the one it passes.
      by_cases h : other = name
      · rw [if_pos h, if_neg (h ▸ he), if_pos h]
      · rw [if_neg h, if_neg h]

/-! ### Storing -/

/-- The setting is a default, and one that was set stands at its place. -/
def Yields (s : Settings) (setting : Setting) : Prop :=
  setting.origin = .default ∧
    ∃ old, s.find? setting.key setting.sectionName = some old ∧ old.origin ≠ .default

/-- A setting that yields changes nothing, any other goes to its place. -/
theorem store_eq (s : Settings) (setting : Setting) [Decidable (s.Yields setting)] :
    s.store setting = if s.Yields setting then s else
      { s with entries := insert (fullKey setting.sectionName setting.key) setting s.entries } := by
  have h : (setting.origin.isDefault &&
      (s.find? setting.key setting.sectionName).any fun old => !old.origin.isDefault) = true ↔
        s.Yields setting := by
    rw [Bool.and_eq_true, Origin.isDefault, decide_eq_true_iff, Option.any_eq_true]
    simp only [Origin.isDefault, Bool.not_eq_true', decide_eq_false_iff_not]
    rfl
  rw [store]
  exact if_congr h rfl rfl

@[simp] theorem positional_store (s : Settings) (setting : Setting) :
    (s.store setting).positional = s.positional := by
  rw [store]
  split_ifs <;> rfl

/-- **What is found** after a setting was stored: the setting under its full key, unless it yields,
and under all others what was there. -/
theorem find?_store (s : Settings) (setting : Setting) (key sectionName : Bytes)
    [Decidable (s.Yields setting)] :
    (s.store setting).find? key sectionName =
      if fullKey sectionName key = fullKey setting.sectionName setting.key ∧ ¬ s.Yields setting then
        some setting
      else s.find? key sectionName := by
  rw [store_eq]
  by_cases hy : s.Yields setting
  · rw [if_pos hy, if_neg fun h => h.2 hy]
  · rw [if_neg hy, find?, lookup_insert]
    exact if_congr (and_iff_left hy).symm rfl rfl

/-! ### One place -/

/-- **A full key** is one key of one section, since no key has the colon that ends a section. -/
theorem fullKey_inj {key key' name name' : Bytes} (h : 0x3a ∉ key) (h' : 0x3a ∉ key') :
    fullKey name key = fullKey name' key' ↔ name = name' ∧ key = key' := by
  refine ⟨fun e => ?_, fun e => by rw [e.1, e.2]⟩
  cases name with
  | nil =>
      cases name' with
      | nil => exact ⟨rfl, e⟩
      | cons c cs =>
          change key = (c :: cs) ++ 0x3a :: key' at e
          exact absurd (e ▸ List.mem_append_right _ List.mem_cons_self) h
  | cons b bs =>
      cases name' with
      | nil =>
          change (b :: bs) ++ 0x3a :: key = key' at e
          exact absurd (e ▸ List.mem_append_right _ List.mem_cons_self) h'
      | cons c cs =>
          change (b :: bs) ++ 0x3a :: key = (c :: cs) ++ 0x3a :: key' at e
          -- A colon further left in one of them would be an octet of the key of the other.
          rcases List.append_eq_append_iff.mp e with ⟨rest, hn, hr⟩ | ⟨rest, hn, hr⟩
          · cases rest with
            | nil => exact ⟨(hn.trans (List.append_nil _)).symm, (List.cons.inj hr).2⟩
            | cons d ds =>
                obtain ⟨-, rfl⟩ := List.cons.inj hr
                exact absurd (List.mem_append_right _ List.mem_cons_self) h
          · cases rest with
            | nil => exact ⟨hn.trans (List.append_nil _), (List.cons.inj hr).2.symm⟩
            | cons d ds =>
                obtain ⟨-, rfl⟩ := List.cons.inj hr
                exact absurd (List.mem_append_right _ List.mem_cons_self) h'

/-- The setting stands under a key of a section. -/
def At (key sectionName : Bytes) (x : Setting) : Prop :=
  x.sectionName = sectionName ∧ x.key = key

instance (key sectionName : Bytes) : DecidablePred (At key sectionName) :=
  fun x => inferInstanceAs (Decidable (x.sectionName = sectionName ∧ x.key = key))

/-- **What is found** where no key has a colon: the setting at its own place, unless it yields. -/
theorem find?_store_at (s : Settings) {x : Setting} {key : Bytes} (sectionName : Bytes)
    (hx : 0x3a ∉ x.key) (hk : 0x3a ∉ key) [Decidable (s.Yields x)] :
    (s.store x).find? key sectionName =
      if At key sectionName x ∧ ¬ s.Yields x then some x else s.find? key sectionName := by
  rw [find?_store]
  refine if_congr (and_congr_left' ?_) rfl rfl
  rw [fullKey_inj hk hx, eq_comm, @eq_comm _ key]
  rfl

/-! ### One setting after the other -/

/-- Stores settings in their order. -/
def storeAll (s : Settings) (xs : List Setting) : Settings := xs.foldl store s

/-- The last of the settings under a key of a section. -/
def lastAt (key sectionName : Bytes) (xs : List Setting) : Option Setting :=
  (xs.filter (At key sectionName)).getLast?

/-- The settings that are defaults, and those that were set. -/
def defaults (xs : List Setting) : List Setting := xs.filter fun x => x.origin = .default
def explicit (xs : List Setting) : List Setting := xs.filter fun x => x.origin ≠ .default

/-- What settings leave under a key: the last one set, and without any the last default. -/
def settled (key sectionName : Bytes) (xs : List Setting) : Option Setting :=
  (lastAt key sectionName (explicit xs)).or (lastAt key sectionName (defaults xs))

variable {xs ys : List Setting} {x : Setting} {key sectionName : Bytes}

@[simp] theorem storeAll_append (s : Settings) :
    storeAll s (xs ++ ys) = storeAll (storeAll s xs) ys :=
  List.foldl_append

@[simp] theorem storeAll_singleton (s : Settings) : storeAll s [x] = s.store x := rfl

/-- Only the entries matter to what is stored. -/
theorem entries_store_congr {s t : Settings} (h : s.entries = t.entries) (x : Setting) :
    (s.store x).entries = (t.store x).entries := by
  classical
  have hf : s.find? x.key x.sectionName = t.find? x.key x.sectionName := by rw [find?, find?, h]
  have hy : s.Yields x ↔ t.Yields x := by rw [Yields, Yields, hf]
  rw [store_eq, store_eq]
  by_cases ht : t.Yields x
  · rw [if_pos ht, if_pos (hy.mpr ht), h]
  · rw [if_neg ht, if_neg (mt hy.mp ht), h]

theorem entries_storeAll_congr {s t : Settings} (h : s.entries = t.entries) (xs : List Setting) :
    (storeAll s xs).entries = (storeAll t xs).entries := by
  induction xs generalizing s t with
  | nil => exact h
  | cons x xs ih => exact ih (entries_store_congr h x)

theorem lastAt_append :
    lastAt key sectionName (xs ++ ys) =
      (lastAt key sectionName ys).or (lastAt key sectionName xs) := by
  rw [lastAt, List.filter_append, List.getLast?_append]
  rfl

theorem lastAt_singleton :
    lastAt key sectionName [x] = if At key sectionName x then some x else none := by
  by_cases h : At key sectionName x <;> simp [lastAt, h]

theorem mem_of_lastAt (h : lastAt key sectionName xs = some x) : x ∈ xs :=
  (List.mem_filter.mp (List.mem_of_getLast? h)).1

@[simp] theorem explicit_append : explicit (xs ++ ys) = explicit xs ++ explicit ys :=
  List.filter_append _ _

@[simp] theorem defaults_append : defaults (xs ++ ys) = defaults xs ++ defaults ys :=
  List.filter_append _ _

theorem explicit_eq_self (h : ∀ x ∈ xs, x.origin ≠ .default) : explicit xs = xs :=
  List.filter_eq_self.mpr fun x hx => decide_eq_true (h x hx)

theorem defaults_eq_nil (h : ∀ x ∈ xs, x.origin ≠ .default) : defaults xs = [] :=
  List.filter_eq_nil_iff.mpr fun x hx hd => h x hx (of_decide_eq_true hd)

theorem explicit_singleton : explicit [x] = if x.origin = .default then [] else [x] := by
  by_cases h : x.origin = .default <;> simp [explicit, h]

theorem defaults_singleton : defaults [x] = if x.origin = .default then [x] else [] := by
  by_cases h : x.origin = .default <;> simp [defaults, h]

/-- A setting that is stored elsewhere settles nothing here. -/
theorem settled_concat_of_not_at (h : ¬ At key sectionName x) :
    settled key sectionName (xs ++ [x]) = settled key sectionName xs := by
  have hx : lastAt key sectionName [x] = none := by rw [lastAt_singleton, if_neg h]
  rw [settled, explicit_append, defaults_append, explicit_singleton, defaults_singleton]
  split_ifs with hd
  · rw [List.append_nil, lastAt_append, hx]
    rfl
  · rw [List.append_nil, lastAt_append, hx]
    rfl

/-- A setting that is set replaces whatever was there. -/
theorem settled_concat_of_explicit (h : At key sectionName x) (hd : x.origin ≠ .default) :
    settled key sectionName (xs ++ [x]) = some x := by
  rw [settled, explicit_append, explicit_singleton, if_neg hd, lastAt_append, lastAt_singleton,
    if_pos h]
  rfl

/-- A default replaces defaults only. -/
theorem settled_concat_of_default (h : At key sectionName x) (hd : x.origin = .default) :
    settled key sectionName (xs ++ [x]) = (lastAt key sectionName (explicit xs)).or (some x) := by
  rw [settled, explicit_append, defaults_append, explicit_singleton, defaults_singleton, if_pos hd,
    if_pos hd, List.append_nil, lastAt_append, lastAt_singleton, if_pos h]
  rfl

/-- A default yields exactly where a setting was set before. -/
theorem yields_iff {s : Settings} (hs : s.find? key sectionName = settled key sectionName xs)
    (h : At key sectionName x) (hd : x.origin = .default) :
    s.Yields x ↔ (lastAt key sectionName (explicit xs)).isSome := by
  rw [Yields, h.1, h.2, hs, settled]
  rcases hl : lastAt key sectionName (explicit xs) with _ | old
  · refine iff_of_false ?_ nofun
    rintro ⟨-, old, ho, hne⟩
    exact hne (of_decide_eq_true (List.mem_filter.mp (mem_of_lastAt ho)).2)
  · have hne : old.origin ≠ .default :=
      of_decide_eq_true (List.mem_filter.mp (mem_of_lastAt hl)).2
    exact iff_of_true ⟨hd, old, rfl, hne⟩ rfl

/-- **What is found** after settings were stored one after the other, where no key has a colon. -/
theorem find?_storeAll (hk : 0x3a ∉ key) (hxs : ∀ x ∈ xs, 0x3a ∉ x.key) :
    (storeAll .empty xs).find? key sectionName = settled key sectionName xs := by
  classical
  induction xs using List.reverseRecOn with
  | nil => rfl
  | append_singleton xs x ih =>
      have hx : 0x3a ∉ x.key := hxs x (List.mem_append_right _ List.mem_cons_self)
      replace ih := ih fun y hy => hxs y (List.mem_append_left _ hy)
      rw [storeAll_append, storeAll_singleton, find?_store_at _ _ hx hk, ih]
      by_cases h : At key sectionName x
      · by_cases hd : x.origin = .default
        · rw [settled_concat_of_default h hd, yields_iff ih h hd]
          rcases hl : lastAt key sectionName (explicit xs) with _ | old
          · exact if_pos ⟨h, nofun⟩
          · rw [if_neg fun hn => hn.2 rfl, settled, hl]
            rfl
        · rw [settled_concat_of_explicit h hd, if_pos ⟨h, fun hy => hd hy.1⟩]
      · rw [settled_concat_of_not_at h, if_neg fun hn => h hn.1]

/-! ### Outside of sections -/

@[simp] theorem fullKey_nil (key : Bytes) : fullKey [] key = key := rfl

/-- A setting that does not yield is found under its key. -/
theorem string?_store {name value : Bytes} {origin : Origin} (key : Bytes)
    (h : ¬ s.Yields ⟨[], name, value, origin⟩) :
    (s.store ⟨[], name, value, origin⟩).string? key =
      if key = name then some value else s.string? key := by
  classical
  rw [string?, find?_store, fullKey_nil, fullKey_nil]
  by_cases hk : key = name
  · rw [if_pos ⟨hk, h⟩, if_pos hk]
    rfl
  · rw [if_neg fun h' => hk h'.1, if_neg hk]
    rfl

theorem string?_store_option (s : Settings) (name value key : Bytes) :
    (s.store ⟨[], name, value, .commandLine⟩).string? key =
      if key = name then some value else s.string? key :=
  string?_store key nofun

/-- A default is found where nothing was. -/
theorem string?_setDefault (name value key : Bytes) (h : s.string? name = none) :
    (s.setDefault name value []).string? key =
      if key = name then some value else s.string? key := by
  refine string?_store key ?_
  rintro ⟨-, old, ho, -⟩
  rw [string?, ho] at h
  cases h

end CurveKeys.Settings
