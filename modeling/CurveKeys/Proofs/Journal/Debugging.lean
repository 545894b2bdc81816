import CurveKeys.Proofs.Bytes.Text
import CurveKeys.Proofs.Journal.Delivery

/-!
# Journal — asking for debugging notes

A list of names opens a logger up for debugging notes: of the categories that it names, or of all of
them.  A name that is unknown spoils the whole list, wherever it stands.  A category that is named
gets the level `debug` and a list that asks for all makes that the global level, so whatever was
written at `debug` or above still is; a category that was more open than that is not any more.

* `Logger.asked`: the names in a list, and `Logger.AsksAll`: the lists that ask for all.
* `Logger.Opened`: what a list can do; `Logger.enableDebug_opened`: that it does nothing else.
* `Logger.enableDebug_allOrNothing`: a list is followed as a whole or not at all.
* `Logger.enableDebug_opens`: what is written after a list was followed.
-/

namespace CurveKeys

namespace Logger

/-! ### Lists of names -/

/-- The names in a list: its pieces between commas, in lower case, without the empty ones and the
two ways of saying no. -/
def asked (list : Bytes) : List Bytes :=
  ((list.splitOn 0x2c).map Text.lower).filter fun name =>
    name ≠ [] ∧ name ≠ Bytes.ascii "0" ∧ name ≠ Bytes.ascii "false"

/-- The name stands for all categories. -/
def MeansAll (name : Bytes) : Prop :=
  name = Bytes.ascii "1" ∨ name = Bytes.ascii "all" ∨ name = Bytes.ascii "true"

/-- The name is neither one of a category nor one for all of them. -/
def Unknown (name : Bytes) : Prop := ¬ MeansAll name ∧ ∀ c : Category, c.name ≠ name

/-- The list asks for all categories: it is empty, or one of its names says so. -/
def AsksAll (list : Bytes) : Prop := list = [] ∨ ∃ name ∈ asked list, MeansAll name

instance : DecidablePred MeansAll := fun name =>
  inferInstanceAs (Decidable (name = _ ∨ name = _ ∨ name = _))

instance : DecidablePred AsksAll := fun list =>
  inferInstanceAs (Decidable (list = [] ∨ ∃ name ∈ asked list, MeansAll name))

theorem isAll_iff {name : Bytes} : isAll name = true ↔ MeansAll name := by
  simp [isAll, MeansAll]

theorem isKnown_iff {name : Bytes} : isKnown name = true ↔ ∃ c : Category, c.name = name := by
  have hall : ∀ c : Category, c ∈ Category.all := by
    intro c
    cases c <;> simp [Category.all]
  simp [isKnown, hall]

/-- An empty piece at the end of a list is no name. -/
theorem debugNames_eq_asked (list : Bytes) : debugNames list = asked list := by
  have hp : (fun name : Bytes => !name.isEmpty && name != Bytes.ascii "0" &&
        name != Bytes.ascii "false") =
      fun name => decide (name ≠ [] ∧ name ≠ Bytes.ascii "0" ∧ name ≠ Bytes.ascii "false") := by
    funext name
    rw [Bool.eq_iff_iff]
    simp [and_assoc]
  rw [debugNames, asked, hp]
  rcases Text.splitOn_eq_pieces 0x2c list with h | h
  · rw [h]
  · rw [h, List.map_append, List.filter_append]
    simp [Text.lower]

theorem any_unknown_iff {names : List Bytes} :
    (names.any fun name => !isAll name && !isKnown name) = true ↔ ∃ name ∈ names, Unknown name := by
  simp only [List.any_eq_true, Bool.and_eq_true, Bool.not_eq_true', Unknown, ← isAll_iff,
    Bool.not_eq_true, ← not_exists, ← isKnown_iff]

theorem any_isAll_iff {names : List Bytes} :
    names.any isAll = true ↔ ∃ name ∈ names, MeansAll name := by
  simp only [List.any_eq_true, isAll_iff]

/-! ### Several categories -/

/-- Gives the level `debug` to categories, one after the other. -/
def openAll (l : Logger) (names : List Bytes) : Logger :=
  names.foldl (fun l name => l.setCategory name .debug) l

variable {l : Logger} {list category : Bytes}

@[simp] theorem level_openAll (l : Logger) (names : List Bytes) :
    (l.openAll names).level = l.level := by
  induction names generalizing l with
  | nil => rfl
  | cons name names ih => exact ih (l.setCategory name .debug)

theorem lookup_openAll (l : Logger) (names : List Bytes) (category : Bytes) :
    (l.openAll names).categories.lookup category =
      if category ∈ names then some .debug else l.categories.lookup category := by
  induction names generalizing l with
  | nil => rfl
  | cons name names ih =>
      have hstep : (l.openAll (name :: names)) = (l.setCategory name .debug).openAll names := rfl
      rw [hstep, ih, lookup_setCategory]
      by_cases h : category ∈ names
      · simp [h]
      · simp [h, eq_comm]

/-! ### What a list does -/

/-- What a list can do to a logger, and whether it is followed. -/
inductive Opened (l : Logger) (list : Bytes) : Logger × Bool → Prop where
  /-- A name is unknown. -/
  | refused (name : Bytes) : name ∈ asked list → Unknown name → Opened l list (l, false)
  /-- The list asks for all categories. -/
  | all : AsksAll list → (∀ name ∈ asked list, ¬ Unknown name) →
      Opened l list ({ l with level := .debug }, true)
  /-- The list names categories, or none at all. -/
  | named : ¬ AsksAll list → (∀ name ∈ asked list, ∃ c : Category, c.name = name) →
      Opened l list (l.openAll (asked list), true)

theorem asked_nil : asked [] = [] := by decide

/-- Where all categories are not asked for, each known name is that of a category. -/
theorem exists_category (hall : ¬ AsksAll list) (known : ∀ name ∈ asked list, ¬ Unknown name) :
    ∀ name ∈ asked list, ∃ c : Category, c.name = name := by
  intro name hm
  by_contra hc
  exact known name hm ⟨fun h => hall (.inr ⟨name, hm, h⟩), not_exists.mp hc⟩

/-- **A list does one of three things.** -/
theorem enableDebug_opened (l : Logger) (list : Bytes) : Opened l list (l.enableDebug list) := by
  rw [enableDebug, debugNames_eq_asked]
  split_ifs with hnone hunknown hall
  · rw [Bool.and_eq_true, Bool.not_eq_true', List.isEmpty_iff, List.isEmpty_eq_false_iff] at hnone
    obtain ⟨hnone, hne⟩ := hnone
    have hall : ¬ AsksAll list := by simp [AsksAll, hne, hnone]
    have named := Opened.named (l := l) hall (by simp [hnone])
    rwa [hnone] at named
  · obtain ⟨name, hm, hn⟩ := any_unknown_iff.mp hunknown
    exact .refused name hm hn
  all_goals
    have known : ∀ name ∈ asked list, ¬ Unknown name :=
      fun name hm hn => hunknown (any_unknown_iff.mpr ⟨name, hm, hn⟩)
    rw [Bool.or_eq_true, List.isEmpty_iff, any_isAll_iff] at hall
  · refine .all ?_ known
    rcases hall with hnil | hall
    · rw [hnil] at hnone
      exact .inl (by simpa using hnone)
    · exact .inr hall
  · rw [not_or] at hall
    have hall : ¬ AsksAll list := by
      rintro (rfl | h)
      · exact hall.1 asked_nil
      · exact hall.2 h
    exact .named hall (exists_category hall known)

/-! ### All or nothing -/

/-- The category is one that the list names. -/
def Names (list category : Bytes) : Prop :=
  category ∈ asked list ∧ ∃ c : Category, c.name = category

variable {outcome : Logger × Bool}

/-- A list is refused for an unknown name, and for nothing else. -/
theorem Opened.snd_eq_false_iff (h : Opened l list outcome) :
    outcome.2 = false ↔ ∃ name ∈ asked list, Unknown name := by
  cases h with
  | refused name hm hn => exact iff_of_true rfl ⟨name, hm, hn⟩
  | all _ known =>
      refine iff_of_false Bool.true_eq_false.mp ?_
      rintro ⟨name, hm, hn⟩
      exact known name hm hn
  | named _ known =>
      refine iff_of_false Bool.true_eq_false.mp ?_
      rintro ⟨name, hm, hn⟩
      obtain ⟨c, hc⟩ := known name hm
      exact hn.2 c hc

theorem Opened.fst_of_refused (h : Opened l list outcome) (hf : outcome.2 = false) :
    outcome.1 = l := by
  cases h with
  | refused => rfl
  | all => cases hf
  | named => cases hf

/-- A list that is followed lowers the global level or names categories. -/
theorem Opened.all_or_named (h : Opened l list outcome) (ht : outcome.2 = true) :
    (AsksAll list ∧ outcome.1 = { l with level := .debug }) ∨
      (¬ AsksAll list ∧ outcome.1 = l.openAll (asked list) ∧
        ∀ name ∈ asked list, ∃ c : Category, c.name = name) := by
  cases h with
  | refused => cases ht
  | all hall => exact .inl ⟨hall, rfl⟩
  | named hall known => exact .inr ⟨hall, rfl, known⟩

/-- **All or nothing.**  A list is refused exactly when one of its names is unknown, and then the
logger is as before.  A list that is followed changes the levels of named categories only, and the
global level only if it asks for all; if it has no names, and is not empty, it changes nothing.
What it asks for is done: the global level is `debug`, or that of each named category. -/
theorem enableDebug_allOrNothing (l : Logger) (list : Bytes) :
    ((l.enableDebug list).2 = false ↔ ∃ name ∈ asked list, Unknown name) ∧
    ((l.enableDebug list).2 = false → (l.enableDebug list).1 = l) ∧
    ((l.enableDebug list).2 = true →
      (∀ category, ¬ Names list category →
        (l.enableDebug list).1.categories.lookup category = l.categories.lookup category) ∧
      ((l.enableDebug list).1.level ≠ l.level → AsksAll list) ∧
      (list ≠ [] → asked list = [] → (l.enableDebug list).1 = l) ∧
      (AsksAll list → (l.enableDebug list).1 = { l with level := .debug }) ∧
      (¬ AsksAll list → ∀ category, Names list category →
        (l.enableDebug list).1.categories.lookup category = some .debug)) := by
  have opened := enableDebug_opened l list
  refine ⟨opened.snd_eq_false_iff, opened.fst_of_refused, fun ht => ?_⟩
  rcases opened.all_or_named ht with ⟨hall, h⟩ | ⟨hall, h, known⟩
  · rw [h]
    refine ⟨fun _ _ => rfl, fun _ => hall, ?_, fun _ => rfl, fun hn => absurd hall hn⟩
    intro hne hnone
    exact absurd hall (by simp [AsksAll, hne, hnone])
  · rw [h, level_openAll]
    refine ⟨?_, fun hl => absurd rfl hl, ?_, fun ha => absurd ha hall, ?_⟩
    · intro category hn
      rw [lookup_openAll, if_neg fun hm => hn ⟨hm, known category hm⟩]
    · intro _ hnone
      rw [hnone]
      rfl
    · intro _ category hn
      rw [lookup_openAll, if_pos hn.1]

/-- A logger with levels of its own for two categories. -/
def someLogger : Logger :=
  { initial with level := .warn, categories := [(Bytes.ascii "keys", .error),
      (Bytes.ascii "curve", .trace)] }

theorem enableDebug_allOrNothing_someLogger :
    ((someLogger.enableDebug (Bytes.ascii "keys,,All,Wallet")).2 = false ∧
        (someLogger.enableDebug (Bytes.ascii "keys,,All,Wallet")).1 = someLogger) ∧
      (someLogger.enableDebug (Bytes.ascii "Keys,0,TOOL")).1.categories.lookup
          (Bytes.ascii "curve") = some .trace ∧
      (someLogger.enableDebug (Bytes.ascii "Keys,0,TOOL")).1.categories.lookup
          (Bytes.ascii "tool") = some .debug ∧
      (someLogger.enableDebug (Bytes.ascii ",False,0")).1 = someLogger := by
  obtain ⟨refused, unchanged, -⟩ :=
    enableDebug_allOrNothing someLogger (Bytes.ascii "keys,,All,Wallet")
  obtain ⟨-, -, followed⟩ := enableDebug_allOrNothing someLogger (Bytes.ascii "Keys,0,TOOL")
  obtain ⟨-, -, none⟩ := enableDebug_allOrNothing someLogger (Bytes.ascii ",False,0")
  have hunknown : Unknown (Bytes.ascii "wallet") := by
    refine ⟨by decide, fun c => ?_⟩
    cases c <;> decide
  have hf := refused.mpr ⟨_, by decide, hunknown⟩
  obtain ⟨others, -, -, -, named⟩ := followed (by decide)
  have hcurve : ¬ Names (Bytes.ascii "Keys,0,TOOL") (Bytes.ascii "curve") :=
    fun h => absurd h.1 (by decide)
  exact ⟨⟨hf, unchanged hf⟩, (others _ hcurve).trans (by decide),
    named (by decide) _ ⟨by decide, .tool, rfl⟩, (none (by decide)).2.2.1 (by decide) (by decide)⟩

/-! ### What is written then -/

theorem writes_iff {level : Level} :
    l.writes level category = true ↔ level ≠ .off ∧ l.effectiveLevel category ≤ level := by
  rw [writes, Bool.and_eq_true, decide_eq_true_iff, decide_eq_true_iff]

theorem effectiveLevel_openAll (l : Logger) (names : List Bytes) (category : Bytes) :
    (l.openAll names).effectiveLevel category =
      if category ∈ names then .debug else l.effectiveLevel category := by
  rw [effectiveLevel, lookup_openAll, level_openAll]
  split_ifs <;> rfl

/-- The list asks for something else than the category: it names others, or asks for all and the
category has a level of its own. -/
def Spares (l : Logger) (list category : Bytes) : Prop :=
  (¬ AsksAll list ∧ category ∉ asked list) ∨
    (AsksAll list ∧ (l.categories.lookup category).isSome = true)

instance (l : Logger) (list category : Bytes) : Decidable (l.Spares list category) :=
  inferInstanceAs (Decidable (_ ∧ _ ∨ _ ∧ _))

/-- **The level that entries must reach** after a list was followed: `debug`, except in categories
that the list spares. -/
theorem effectiveLevel_enableDebug (h : (l.enableDebug list).2 = true) (category : Bytes) :
    (l.enableDebug list).1.effectiveLevel category =
      if l.Spares list category then l.effectiveLevel category else .debug := by
  rcases (enableDebug_opened l list).all_or_named h with ⟨hall, ho⟩ | ⟨hall, ho, -⟩
  · rw [ho, effectiveLevel, effectiveLevel]
    rcases hown : l.categories.lookup category with _ | own
    · have hs : ¬ l.Spares list category := by simp [Spares, hall, hown]
      rw [if_neg hs]
      rfl
    · have hs : l.Spares list category := .inr ⟨hall, by rw [hown]; rfl⟩
      rw [if_pos hs]
      rfl
  · rw [ho, effectiveLevel_openAll]
    by_cases hm : category ∈ asked list
    · have hs : ¬ l.Spares list category := by simp [Spares, hall, hm]
      rw [if_pos hm, if_neg hs]
    · have hs : l.Spares list category := .inl ⟨hall, hm⟩
      rw [if_neg hm, if_pos hs]

/-- **What is written** after a list was followed.  Debugging notes are, of each category that is
named, unless the list asks for all and the category has a higher level of its own.  What was
written before still is at the level `debug` and above, and below it in a category that the list
spares.  A category that is named, where the list does not ask for all, has just the level
`debug`. -/
theorem enableDebug_opens (l : Logger) (list : Bytes) (h : (l.enableDebug list).2 = true) :
    (∀ c : Category, c.name ∈ asked list →
      (AsksAll list → ∀ own, l.categories.lookup c.name = some own → own ≤ .debug) →
      (l.enableDebug list).1.writes .debug c.name = true) ∧
    (∀ level category, l.writes level category = true →
      .debug ≤ level ∨ l.Spares list category →
      (l.enableDebug list).1.writes level category = true) ∧
    (¬ AsksAll list → ∀ c : Category, c.name ∈ asked list →
      (l.enableDebug list).1.effectiveLevel c.name = .debug) := by
  simp only [writes_iff, effectiveLevel_enableDebug h]
  refine ⟨?_, ?_, ?_⟩
  · intro c hm hown
    refine ⟨by decide, ?_⟩
    split_ifs with hs
    · rcases hs with ⟨-, hn⟩ | ⟨hall, hs⟩
      · exact absurd hm hn
      · obtain ⟨own, ho⟩ := Option.isSome_iff_exists.mp hs
        rw [effectiveLevel, ho]
        exact hown hall own ho
    · exact Int.le_refl _
  · rintro level category ⟨hoff, hle⟩ hlevel
    refine ⟨hoff, ?_⟩
    split_ifs with hs
    · exact hle
    · exact hlevel.resolve_right hs
  · intro hall c hm
    refine if_neg ?_
    rintro (⟨-, hn⟩ | ⟨ha, -⟩)
    · exact hn hm
    · exact hall ha

/-- Two names, one of them a category that was open already. -/
theorem enableDebug_opens_someLogger :
    (someLogger.enableDebug (Bytes.ascii "KEYS,tool")).1.writes .debug (Bytes.ascii "keys") =
        true ∧
      (someLogger.enableDebug (Bytes.ascii "KEYS,tool")).1.writes .warn (Bytes.ascii "tool") =
        true ∧
      (someLogger.enableDebug (Bytes.ascii "KEYS,tool")).1.writes .trace (Bytes.ascii "curve") =
        true := by
  obtain ⟨named, kept, -⟩ :=
    enableDebug_opens someLogger (Bytes.ascii "KEYS,tool") (by decide)
  have hall : ¬ AsksAll (Bytes.ascii "KEYS,tool") := by decide
  exact ⟨named .keys (by decide) fun ha => absurd ha hall,
    kept .warn _ (by decide) (.inl (by decide)),
    kept .trace _ (by decide) (.inr (.inl ⟨hall, by decide⟩))⟩

/-- A category that is more open than `debug` is not after it was named. -/
theorem enableDebug_hidesTrace :
    (someLogger.enableDebug (Bytes.ascii "curve")).2 = true ∧
      someLogger.writes .trace (Bytes.ascii "curve") = true ∧
      (someLogger.enableDebug (Bytes.ascii "curve")).1.writes .trace (Bytes.ascii "curve") =
        false := by
  decide

end Logger

end CurveKeys
