import CurveKeys.Bytes.Text
import Mathlib.Algebra.GroupWithZero.Nat
import Mathlib.Data.List.Basic
import Mathlib.Data.List.TakeWhile

/-!
# Bytes — taking texts apart

A text that is put together from lines, each ended by a newline, is taken apart into the same lines.
Splitting at an octet finds its first place, and trimming leaves a text alone that neither begins
nor ends with a blank.

* `Text.unlines`: the text of lines.
* `Text.lines_unlines`: its lines, and `Text.length_lines_unlines`: how many there are when newlines
  stand in what it is put together from.
* `Text.splitOn_newline`: splitting at newlines gives the lines, and what is behind the last newline
  if that is nothing.
* `Text.splitFirst?_append`: splitting once, at the first place.
* `Text.Trimmed`: the texts that trimming leaves alone.
-/

namespace CurveKeys.Text

/-- The text of lines, each ended by a newline. -/
def unlines (ls : List Bytes) : Bytes := ls.flatMap (· ++ [newline])

@[simp] theorem unlines_append (ls ls' : List Bytes) :
    unlines (ls ++ ls') = unlines ls ++ unlines ls' :=
  List.flatMap_append

/-- Both sides of a separator are split on their own. -/
theorem splitOn_append_cons (c : UInt8) (a b : Bytes) :
    (a ++ c :: b).splitOn c = a.splitOn c ++ b.splitOn c := by
  induction a with
  | nil =>
      rw [List.nil_append, List.splitOn_cons_eq_if_modifyHead, if_pos (beq_self_eq_true c)]
      rfl
  | cons x a ih =>
      rw [List.cons_append, List.splitOn_cons_eq_if_modifyHead,
        List.splitOn_cons_eq_if_modifyHead, ih]
      split_ifs
      · rfl
      · rcases h : a.splitOn c with _ | ⟨first, others⟩
        · exact absurd h (List.splitOn_ne_nil c a)
        · rfl

theorem length_splitOn (c : UInt8) (s : Bytes) : (s.splitOn c).length = s.count c + 1 := by
  induction s with
  | nil => rfl
  | cons x s ih =>
      rw [List.splitOn_cons_eq_if_modifyHead, List.count_cons]
      split_ifs
      · rw [List.length_cons, ih]
      · rw [List.length_modifyHead, ih, Nat.add_zero]

theorem splitOn_unlines (ls : List Bytes) :
    (unlines ls).splitOn newline = ls.flatMap (·.splitOn newline) ++ [[]] := by
  induction ls with
  | nil => rfl
  | cons l ls ih =>
      rw [unlines, List.flatMap_cons, List.append_assoc, List.singleton_append,
        splitOn_append_cons, List.flatMap_cons, List.append_assoc]
      exact congrArg (_ ++ ·) ih

/-- The lines of a text put together from lines are the pieces of these between the newlines in
them. -/
theorem lines_unlines_eq (ls : List Bytes) :
    lines (unlines ls) = ls.flatMap (·.splitOn newline) := by
  rw [lines, pieces, splitOn_unlines, List.getLast?_concat, if_pos rfl, List.dropLast_concat]

/-- **The lines of a text** put together from lines without newlines are these lines. -/
theorem lines_unlines {ls : List Bytes} (h : ∀ l ∈ ls, newline ∉ l) : lines (unlines ls) = ls := by
  rw [lines_unlines_eq, List.flatMap_congr fun l hl => List.splitOn_eq_singleton (h l hl),
    List.flatMap_singleton']

/-- Each newline in a line makes one line more. -/
theorem length_lines_unlines (ls : List Bytes) :
    (lines (unlines ls)).length = ls.length + (ls.map (List.count newline)).sum := by
  rw [lines_unlines_eq]
  induction ls with
  | nil => rfl
  | cons l ls ih =>
      rw [List.flatMap_cons, List.length_append, ih, length_splitOn, List.length_cons,
        List.map_cons, List.sum_cons]
      omega

theorem length_lines_unlines_eq_iff {ls : List Bytes} :
    (lines (unlines ls)).length = ls.length ↔ ∀ l ∈ ls, newline ∉ l := by
  rw [length_lines_unlines, Nat.add_eq_left, List.sum_eq_zero_iff_forall_eq_nat,
    List.forall_mem_map]
  simp only [List.count_eq_zero]

theorem lines_unlines_eq_self_iff {ls : List Bytes} :
    lines (unlines ls) = ls ↔ ∀ l ∈ ls, newline ∉ l :=
  ⟨fun h => length_lines_unlines_eq_iff.mp (congrArg List.length h), lines_unlines⟩

/-- What is behind the last separator counts as a piece unless it is nothing. -/
theorem splitOn_eq_pieces (c : UInt8) (s : Bytes) :
    s.splitOn c = pieces c s ∨ s.splitOn c = pieces c s ++ [[]] := by
  rw [pieces]
  split_ifs with h
  · exact .inr (List.dropLast_append_getLast? [] h).symm
  · exact .inl rfl

/-- What is behind the last newline counts as a line unless it is nothing. -/
theorem splitOn_newline (s : Bytes) :
    s.splitOn newline = lines s ∨ s.splitOn newline = lines s ++ [[]] :=
  splitOn_eq_pieces newline s

/-- No piece has the separator in it. -/
theorem not_mem_of_mem_splitOn {c : UInt8} {s piece : Bytes} (h : piece ∈ s.splitOn c) :
    c ∉ piece := by
  induction s generalizing piece with
  | nil =>
      obtain rfl := List.mem_singleton.mp h
      exact List.not_mem_nil
  | cons x s ih =>
      rw [List.splitOn_cons_eq_if_modifyHead] at h
      split_ifs at h with hx
      · rcases List.mem_cons.mp h with rfl | h
        · exact List.not_mem_nil
        · exact ih h
      · rcases hs : s.splitOn c with _ | ⟨first, others⟩
        · exact absurd hs (List.splitOn_ne_nil c s)
        · rw [hs] at h ih
          rcases List.mem_cons.mp h with rfl | h
          · refine List.not_mem_cons_of_ne_of_not_mem ?_ (ih List.mem_cons_self)
            exact fun e => hx (beq_iff_eq.mpr e.symm)
          · exact ih (List.mem_cons_of_mem _ h)

/-- A text on one line. -/
theorem lines_of_not_mem {s : Bytes} (hne : s ≠ []) (h : newline ∉ s) : lines s = [s] := by
  rw [lines, pieces, List.splitOn_eq_singleton h]
  exact if_neg fun e => hne (Option.some.inj e)

/-! ### One split -/

section Span

variable {p : UInt8 → Bool} {a b : Bytes}

/-- What satisfies a test, in front of an octet that does not. -/
theorem takeWhile_append_of_head (ha : ∀ x ∈ a, p x = true)
    (hb : ∀ x, b.head? = some x → p x = false) : (a ++ b).takeWhile p = a := by
  rw [List.takeWhile_append_of_pos ha]
  cases b with
  | nil => exact List.append_nil a
  | cons x b => rw [List.takeWhile_cons_of_neg (by simp [hb x rfl]), List.append_nil]

/-- What begins with the first octet that fails a test. -/
theorem dropWhile_append_of_head (ha : ∀ x ∈ a, p x = true)
    (hb : ∀ x, b.head? = some x → p x = false) : (a ++ b).dropWhile p = b := by
  rw [List.dropWhile_append_of_pos ha]
  cases b with
  | nil => rfl
  | cons x b => exact List.dropWhile_cons_of_neg (by simp [hb x rfl])

end Span

theorem head?_cons_eq_self {c : UInt8} {b : Bytes} :
    ∀ x, (c :: b).head? = some x → (x != c) = false := by
  intro x hx
  simp [Option.some.inj hx]

theorem ne_of_not_mem {c : UInt8} {a : Bytes} (h : c ∉ a) : ∀ x ∈ a, (x != c) = true :=
  fun _ hx => bne_iff_ne.mpr fun e => h (e ▸ hx)

/-- What stands in front of the first `c`, and what begins there. -/
theorem takeWhile_append_cons {c : UInt8} {a : Bytes} (h : c ∉ a) (b : Bytes) :
    (a ++ c :: b).takeWhile (· != c) = a :=
  takeWhile_append_of_head (ne_of_not_mem h) head?_cons_eq_self

theorem dropWhile_append_cons {c : UInt8} {a : Bytes} (h : c ∉ a) (b : Bytes) :
    (a ++ c :: b).dropWhile (· != c) = c :: b :=
  dropWhile_append_of_head (ne_of_not_mem h) head?_cons_eq_self

theorem splitFirst?_append {c : UInt8} {a : Bytes} (h : c ∉ a) (b : Bytes) :
    splitFirst? c (a ++ c :: b) = some (a, b) := by
  rw [splitFirst?, dropWhile_append_cons h, takeWhile_append_cons h]

theorem splitFirst?_of_not_mem {c : UInt8} {s : Bytes} (h : c ∉ s) : splitFirst? c s = none := by
  rw [splitFirst?, List.dropWhile_eq_nil_iff.mpr (ne_of_not_mem h)]

/-! ### Blanks -/

theorem dropWhile_isBlank_of_head {s : Bytes} (h : ∀ c, s.head? = some c → isBlank c = false) :
    s.dropWhile isBlank = s :=
  dropWhile_append_of_head (List.forall_mem_nil _) h

/-- Blanks alone are trimmed to nothing. -/
theorem trim_eq_nil_iff {s : Bytes} : trim s = [] ↔ ∀ c ∈ s, isBlank c = true := by
  rw [trim, trimEnd, List.reverse_eq_nil_iff, List.dropWhile_eq_nil_iff]
  constructor
  · intro h c hc
    rw [← List.takeWhile_append_dropWhile (p := isBlank) (l := s)] at hc
    rcases List.mem_append.mp hc with hc | hc
    · exact List.mem_takeWhile_imp hc
    · exact h c (List.mem_reverse.mpr hc)
  · intro h c hc
    exact h c ((List.dropWhile_suffix _).subset (List.mem_reverse.mp hc))

/-- The text neither begins nor ends with a blank. -/
structure Trimmed (s : Bytes) : Prop where
  head : ∀ c, s.head? = some c → isBlank c = false
  last : ∀ c, s.getLast? = some c → isBlank c = false

namespace Trimmed

variable {s a b : Bytes} {c : UInt8}

theorem of_forall (h : ∀ c ∈ s, isBlank c = false) : Trimmed s :=
  ⟨fun c hc => h c (List.mem_of_head? hc), fun c hc => h c (List.mem_of_getLast? hc)⟩

/-- Whatever stands between octets that are no blanks. -/
theorem enclosed (hc : isBlank c = false) (s : Bytes) : Trimmed (c :: (s ++ [c])) := by
  constructor
  · intro d hd
    exact Option.some.inj hd ▸ hc
  · intro d hd
    rw [List.getLast?_cons, List.getLast?_concat] at hd
    exact Option.some.inj hd ▸ hc

theorem append (ha : Trimmed a) (hne : a ≠ []) (hc : isBlank c = false) (hb : Trimmed b) :
    Trimmed (a ++ c :: b) := by
  constructor
  · intro d hd
    rw [List.head?_append_of_ne_nil a hne] at hd
    exact ha.head d hd
  · intro d hd
    rw [List.getLast?_append_of_ne_nil a (List.cons_ne_nil c b), List.getLast?_cons] at hd
    rcases hl : b.getLast? with _ | last
    · rw [hl] at hd
      exact Option.some.inj hd ▸ hc
    · rw [hl] at hd
      exact Option.some.inj hd ▸ hb.last last hl

theorem trim_eq (h : Trimmed s) : trim s = s := by
  have hr : ∀ c, s.reverse.head? = some c → isBlank c = false :=
    fun c hc => h.last c (List.head?_reverse ▸ hc)
  rw [trim, trimEnd, dropWhile_isBlank_of_head h.head, dropWhile_isBlank_of_head hr,
    List.reverse_reverse]

end Trimmed

end CurveKeys.Text

/-! ### Zero octets -/

namespace CurveKeys.Bytes

variable {a b : Bytes}

/-- A string without zero octets ends at its end. -/
theorem upToNul_eq_self (h : 0 ∉ b) : upToNul b = b :=
  List.takeWhile_eq_self_iff.mpr (Text.ne_of_not_mem h)

theorem upToNul_eq_self_iff : upToNul b = b ↔ 0 ∉ b :=
  ⟨fun h => h ▸ zero_not_mem_upToNul b, upToNul_eq_self⟩

theorem upToNul_append (h : 0 ∉ a) (b : Bytes) : upToNul (a ++ b) = a ++ upToNul b :=
  List.takeWhile_append_of_pos (Text.ne_of_not_mem h)

end CurveKeys.Bytes
