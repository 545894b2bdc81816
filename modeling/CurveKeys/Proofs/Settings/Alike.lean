import CurveKeys.Proofs.Settings.Quoting

/-!
# Settings — lines and options

A key can be set by a line of a text or by an option among arguments.  Both mean the same: a flag,
which is a bare key, sets itself to `true`, or what it negates to `false`; and a key with a value
behind `=` sets that value, if the value is none that a line would read as something else.

* `Settings.Sets`: reading succeeds and sets one key outside sections, and nothing else.
* `Line.read_flag`, `Argument.read_flag`: what a flag says in both places.
* `Settings.line_option_alike`: lines and options mean the same.
-/

namespace CurveKeys

namespace Quoted

/-- The text begins and ends with the same quote. -/
def Enclosed (text : Bytes) : Prop :=
  ∃ quote inner, (quote = 0x22 ∨ quote = 0x27) ∧ text = quote :: (inner ++ [quote])

theorem Enclosed.head?_eq_getLast? {text : Bytes} (h : Enclosed text) :
    text.head? = text.getLast? := by
  obtain ⟨quote, inner, -, rfl⟩ := h
  rw [List.getLast?_cons, List.getLast?_concat]
  rfl

/-- A text that is not in quotes stands for itself. -/
theorem unquote_eq_self {text : Bytes} (h : ¬ Enclosed text) : unquote text = text := by
  rw [unquote.eq_def]
  split
  · rename_i first second rest
    by_cases hlast : (second :: rest).getLast? = some first
    · have htext : first :: second :: rest = first :: ((second :: rest).dropLast ++ [first]) := by
        rw [List.dropLast_append_getLast? first hlast]
      have hdouble : first ≠ 0x22 := fun e => h ⟨first, _, .inl e, htext⟩
      have hsingle : first ≠ 0x27 := fun e => h ⟨first, _, .inr e, htext⟩
      simp [hlast, hdouble, hsingle]
    · simp [hlast]
  · rfl

end Quoted

/-! ### Flags -/

/-- The key that a flag sets: itself, or what it negates. -/
def flagKey (flag : Bytes) : Bytes := if Line.Negates flag then flag.drop 2 else flag

/-- The value that a flag sets. -/
def flagValue (flag : Bytes) : Bytes :=
  if Line.Negates flag then Bytes.ascii "false" else Bytes.ascii "true"

variable {flag key value : Bytes}

theorem bareKey_eq_flag (flag : Bytes) : bareKey flag = (flagKey flag, flagValue flag) := by
  rw [Line.bareKey_eq, flagKey, flagValue]
  split_ifs <;> rfl

/-- A negated key has at least one octet. -/
theorem isValidKey_flagKey (h : isValidKey flag = true) : isValidKey (flagKey flag) = true := by
  rw [flagKey]
  split_ifs with hn
  · have hne : flag.drop 2 ≠ [] := by
      intro e
      have hc := hn.2
      rw [List.getElem?_eq_none (List.drop_eq_nil_iff.mp e)] at hc
      cases hc
    simp only [isValidKey, Bool.and_eq_true, List.all_eq_true]
    refine ⟨by simp [hne], ?_⟩
    intro c hc
    exact isKeyOctet_of_mem h (List.mem_of_mem_drop hc)
  · exact h

/-- **A flag on a line.** -/
theorem Line.read_flag (h : isValidKey flag = true) (hl : flag.length ≤ maxLength) :
    read flag = .ok (.assignment (flagKey flag) (flagValue flag)) := by
  have heq : 0x3d ∉ flag := not_mem_of_isValidKey h rfl
  have hassign : readAssignment flag = .ok (.assignment (flagKey flag) (flagValue flag)) := by
    have hkey : keyPart flag = flagKey flag := if_neg heq
    have hvalue : valuePart flag = flagValue flag := if_neg heq
    rw [readAssignment_eq, hkey, hvalue, if_pos (isValidKey_flagKey h)]
  obtain ⟨first, rest, rfl, hfirst⟩ := exists_cons_of_isValidKey h
  rw [read, if_neg (Nat.not_lt.mpr hl), (trimmed_key h).trim_eq]
  simp only [ne_of_isKeyOctet hfirst, if_false]
  exact hassign

namespace Argument

/-- The argument of an option with the given text behind its dashes. -/
def dashed (text : Bytes) : Bytes := Bytes.ascii "--" ++ text

theorem read_dashed (text : Bytes) : read (dashed text) = readOption text := rfl

/-- **A flag among arguments.** -/
theorem read_flag (h : isValidKey flag = true) :
    read (dashed flag) = some (.option (flagKey flag) (flagValue flag)) := by
  rw [read_dashed, readOption, Text.splitFirst?_of_not_mem (not_mem_of_isValidKey h rfl),
    Option.getD_none, bareKey_eq_flag]
  exact if_pos (isValidKey_flagKey h)

/-- **A key and its value among arguments.** -/
theorem read_append (h : isValidKey key = true) (value : Bytes) :
    read (dashed (key ++ 0x3d :: value)) = some (.option key value) := by
  rw [read_dashed, readOption, Text.splitFirst?_append (not_mem_of_isValidKey h rfl)]
  exact if_pos h

theorem zero_not_mem_dashed {text : Bytes} (h : 0 ∉ text) : 0 ∉ dashed text := by
  rw [dashed, List.mem_append, not_or]
  exact ⟨by decide, h⟩

end Argument

namespace Settings

/-! ### One key outside sections -/

/-- A full key without a colon is a key outside sections. -/
theorem fullKey_eq_iff {name sectionName : Bytes} (h : 0x3a ∉ key) :
    fullKey sectionName name = key ↔ sectionName = [] ∧ name = key := by
  rw [fullKey]
  split_ifs with hs
  · simp [List.isEmpty_iff.mp hs]
  · have hne : sectionName ++ 0x3a :: name ≠ key := by
      rintro rfl
      exact h (List.mem_append_right _ List.mem_cons_self)
    simp [hne, mt List.isEmpty_iff.mpr hs]

/-- Reading settings over others ends without a fault and sets the key outside sections to the
value; all other values are as before. -/
structure Sets (s : Settings) (key value : Bytes) (outcome : Settings × Option ReadError) :
    Prop where
  noFault : outcome.2 = none
  values : ∀ name sectionName, outcome.1.string? name sectionName =
    if sectionName = [] ∧ name = key then some value else s.string? name sectionName

theorem sets_store (s : Settings) {origin : Origin} (h : isValidKey key = true)
    (ho : origin ≠ .default) : s.Sets key value (s.store ⟨[], key, value, origin⟩, none) where
  noFault := rfl
  values name sectionName := by
    classical
    have hy : ¬ s.Yields ⟨[], key, value, origin⟩ := fun hy => ho hy.1
    have hat : fullKey sectionName name = key ↔ sectionName = [] ∧ name = key :=
      fullKey_eq_iff (colon_not_mem_of_isValidKey h)
    rw [string?, find?_store, fullKey_nil]
    by_cases hk : fullKey sectionName name = key
    · rw [if_pos ⟨hk, hy⟩, if_pos (hat.mp hk)]
      rfl
    · rw [if_neg fun hn => hk hn.1, if_neg (mt hat.mpr hk)]
      rfl

/-- A text of one line that assigns a value. -/
theorem sets_readText (s : Settings) (source : Bytes) {line : Bytes}
    (h : isValidKey key = true) (hn : Text.newline ∉ line)
    (hr : Line.read line = .ok (.assignment key value)) :
    s.Sets key value (s.readText source line) := by
  have hline : Origin.line source 1 ≠ .default := by
    intro e
    cases e
  rw [readText_line s source hn hr]
  exact s.sets_store h hline

/-- A single argument that is an option. -/
theorem sets_readArguments (s : Settings) {argument : Bytes} (h : isValidKey key = true)
    (hn : 0 ∉ argument) (hr : Argument.read argument = some (.option key value)) :
    s.Sets key value (s.readArguments [argument]) := by
  have hread : s.readArguments [argument] =
      ({ s with positional := [] }.store ⟨[], key, value, .commandLine⟩, none) := by
    rw [readArguments, List.map_singleton, Bytes.upToNul_eq_self hn, readMoreArguments, hr]
    rfl
  have hcommand : Origin.commandLine ≠ .default := by
    intro e
    cases e
  obtain ⟨noFault, values⟩ :=
    sets_store { s with positional := [] } h hcommand
  rw [hread]
  exact ⟨noFault, values⟩

/-- **Lines and options mean the same.**  A flag of key octets is read on a line and behind dashes,
and sets the same key to the same value.  So is a valid key with a value behind `=` that has no
newline, no zero octet, no blanks around it and no quotes around it. -/
theorem line_option_alike (s : Settings) (source : Bytes) :
    (∀ flag, flag ≠ [] → (∀ c ∈ flag, isKeyOctet c = true) → flag.length ≤ 4096 →
      s.Sets (flagKey flag) (flagValue flag) (s.readText source flag) ∧
        s.Sets (flagKey flag) (flagValue flag) (s.readArguments [Argument.dashed flag])) ∧
    ∀ key value, isValidKey key = true → Text.newline ∉ value → 0 ∉ value →
      Text.Trimmed value → ¬ Quoted.Enclosed value →
      (key ++ 0x3d :: value).length ≤ 4096 →
      s.Sets key value (s.readText source (key ++ 0x3d :: value)) ∧
        s.Sets key value (s.readArguments [Argument.dashed (key ++ 0x3d :: value)]) := by
  constructor
  · intro flag hne hall hl
    have h : isValidKey flag = true := by simp [isValidKey, hne, List.all_eq_true.mpr hall]
    have hk := isValidKey_flagKey h
    have hzero := Argument.zero_not_mem_dashed (not_mem_of_isValidKey h rfl)
    exact ⟨s.sets_readText source hk (not_mem_of_isValidKey h rfl) (Line.read_flag h hl),
      s.sets_readArguments hk hzero (Argument.read_flag h)⟩
  · intro key value h hn hz ht hq hl
    have hline := Line.read_append h ht hl
    rw [Quoted.unquote_eq_self hq] at hline
    have hnewline := Line.not_mem_assignment h rfl (by decide) hn
    have hzero := Line.not_mem_assignment h rfl (by decide) hz
    exact ⟨s.sets_readText source h hnewline hline,
      s.sets_readArguments h (Argument.zero_not_mem_dashed hzero) (Argument.read_append h value)⟩

/-- A flag that negates a key, one that only begins so, and a value with quotes, `=` and `#`. -/
theorem line_option_alike_someFlags :
    empty.Sets (Bytes.ascii "x") (Bytes.ascii "false")
        (empty.readArguments [Bytes.ascii "--nox"]) ∧
      empty.Sets (Bytes.ascii "no-x") (Bytes.ascii "true")
        (empty.readText [] (Bytes.ascii "no-x")) ∧
      empty.Sets (Bytes.ascii "k") (Bytes.ascii "'#= \"")
        (empty.readText [] (Bytes.ascii "k='#= \"")) ∧
      empty.Sets (Bytes.ascii "k") (Bytes.ascii "'#= \"")
        (empty.readArguments [Bytes.ascii "--k='#= \""]) := by
  obtain ⟨flags, values⟩ := line_option_alike empty []
  have hq : ¬ Quoted.Enclosed (Bytes.ascii "'#= \"") :=
    fun h => absurd h.head?_eq_getLast? (by decide)
  have ht : Text.Trimmed (Bytes.ascii "'#= \"") := by
    constructor
    · intro c hc
      obtain rfl := Option.some.inj hc
      rfl
    · intro c hc
      obtain rfl := Option.some.inj hc
      rfl
  obtain ⟨line, option⟩ := values (Bytes.ascii "k") (Bytes.ascii "'#= \"") (by decide) (by decide)
    (by decide) ht hq (by decide)
  exact ⟨(flags (Bytes.ascii "nox") (by decide) (List.all_eq_true.mp (by decide)) (by decide)).2,
    (flags (Bytes.ascii "no-x") (by decide) (List.all_eq_true.mp (by decide)) (by decide)).1,
    line, option⟩

end Settings

end CurveKeys
