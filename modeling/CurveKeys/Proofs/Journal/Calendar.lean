import Mathlib.Logic.Function.Iterate
import Mathlib.Order.Monotone.Basic
import Mathlib.Tactic.IntervalCases
import Mathlib.Tactic.SplitIfs
import CurveKeys.Journal.Calendar

/-!
# Journal — counting days

The date of a day is found by division; here the days are counted, each date followed by the next
one of the calendar, and the two agree on every day from 1970 on (`Date.ofDays_eq_onDay`).

* `Date.monthLength`, `Date.Valid`: the lengths of the months, and the dates there are.
* `Date.next`, `Date.onDay`: the following date, and the date after a number of days.
* `Date.Before`: the order of dates, which the days follow (`Date.onDay_before`).
-/

namespace CurveKeys.Date

/-! ### The calendar -/

/-- A year has a leap day if four divides it; of the years that end a century, if 400 does. -/
def IsLeap (year : Int) : Prop := year % 4 = 0 ∧ (year % 100 = 0 → year % 400 = 0)

instance (year : Int) : Decidable (IsLeap year) := inferInstanceAs (Decidable (_ ∧ _))

/-- How many days a month has. -/
def monthLength (year month : Int) : Int :=
  if month = 2 then if IsLeap year then 29 else 28
  else if month = 4 ∨ month = 6 ∨ month = 9 ∨ month = 11 then 30 else 31

/-- A date of the calendar. -/
structure Valid (d : Date) : Prop where
  month : 1 ≤ d.month ∧ d.month ≤ 12
  day : 1 ≤ d.day ∧ d.day ≤ monthLength d.year d.month

/-- The following date. -/
def next (d : Date) : Date :=
  if d.day < monthLength d.year d.month then ⟨d.year, d.month, d.day + 1⟩
  else if d.month < 12 then ⟨d.year, d.month + 1, 1⟩
  else ⟨d.year + 1, 1, 1⟩

/-- The date `n` days after 1 January 1970. -/
def onDay (n : Nat) : Date := next^[n] ⟨1970, 1, 1⟩

theorem onDay_succ (n : Nat) : onDay (n + 1) = (onDay n).next :=
  Function.iterate_succ_apply' next n _

theorem monthLength_bounds (year month : Int) :
    28 ≤ monthLength year month ∧ monthLength year month ≤ 31 := by
  unfold monthLength
  split_ifs <;> decide

theorem Valid.next {d : Date} (h : d.Valid) : d.next.Valid := by
  have first (year month : Int) : 1 ≤ (1 : Int) ∧ 1 ≤ monthLength year month :=
    ⟨Int.le_refl 1, Int.le_trans (by decide) (monthLength_bounds year month).1⟩
  obtain ⟨⟨hm, hm'⟩, hd, -⟩ := h
  unfold Date.next
  split_ifs with hday hmonth
  · exact ⟨⟨hm, hm'⟩, Int.le_add_one hd, hday⟩
  · exact ⟨⟨Int.le_add_one hm, hmonth⟩, first _ _⟩
  · exact ⟨⟨Int.le_refl 1, (by decide : (1 : Int) ≤ 12)⟩, first _ _⟩

theorem valid_onDay (n : Nat) : (onDay n).Valid := by
  induction n with
  | zero => exact ⟨⟨by decide, by decide⟩, by decide, by decide⟩
  | succ n ih => rw [onDay_succ]; exact ih.next

/-! ### The order of dates -/

/-- The years decide, then the months, then the days. -/
def Before (d e : Date) : Prop :=
  d.year < e.year ∨
    d.year = e.year ∧ (d.month < e.month ∨ d.month = e.month ∧ d.day < e.day)

instance : IsTrans Date Before where
  trans _ _ _ h h' := by
    unfold Before at *
    omega

theorem before_next (d : Date) : d.Before d.next := by
  unfold next
  split_ifs
  · exact .inr ⟨rfl, .inr ⟨rfl, Int.lt_succ _⟩⟩
  · exact .inr ⟨rfl, .inl (Int.lt_succ _)⟩
  · exact .inl (Int.lt_succ _)

/-- **A later day** has a later date. -/
theorem onDay_before {m n : Nat} (h : m < n) : (onDay m).Before (onDay n) :=
  Nat.rel_of_forall_rel_succ_of_lt Before (fun k => onDay_succ k ▸ before_next (onDay k)) h

theorem year_onDay_le {m n : Nat} (h : m ≤ n) : (onDay m).year ≤ (onDay n).year := by
  rcases Nat.eq_or_lt_of_le h with rfl | h
  · exact le_refl _
  · rcases onDay_before h with h | ⟨h, -⟩
    · exact le_of_lt h
    · exact le_of_eq h

/-! ### Years from March to February -/

/-- The number of days from 1 March of year 0 to 1 March of a year. -/
def marchStart (year : Int) : Int := 365 * year + year / 4 - year / 100 + year / 400

/-- How many days there are from 1 March of a year to the next. -/
def marchLength (year : Int) : Int := if IsLeap (year + 1) then 366 else 365

theorem marchLength_cases (year : Int) : marchLength year = 365 ∨ marchLength year = 366 := by
  unfold marchLength
  split_ifs
  · exact .inr rfl
  · exact .inl rfl

theorem marchStart_succ (year : Int) :
    marchStart (year + 1) = marchStart year + marchLength year := by
  unfold marchStart marchLength IsLeap
  split_ifs <;> omega

/-- The number of days from 1 March to the first of a month, months counted from March. -/
def monthStart (month : Int) : Int := (153 * month + 2) / 5

/-- A day of a month, months counted from March. -/
def ofMarchMonth (year month day : Int) : Date :=
  if month < 10 then ⟨year, month + 3, day⟩ else ⟨year + 1, month - 9, day⟩

/-- The date `day` days after 1 March. -/
def ofMarchYear (year day : Int) : Date :=
  let month := (5 * day + 2) / 153
  ofMarchMonth year month (day - monthStart month + 1)

@[simp] theorem day_ofMarchMonth (year month day : Int) :
    (ofMarchMonth year month day).day = day := by
  unfold ofMarchMonth
  split_ifs <;> rfl

/-- The month of a day: the one that has begun and of which the next has not. -/
theorem monthOf_eq_iff {day month : Int} :
    (5 * day + 2) / 153 = month ↔ monthStart month ≤ day ∧ day < monthStart (month + 1) := by
  unfold monthStart
  omega

theorem ofMarchYear_eq {year day month : Int} (h : monthStart month ≤ day)
    (h' : day < monthStart (month + 1)) :
    ofMarchYear year day = ofMarchMonth year month (day - monthStart month + 1) := by
  rw [ofMarchYear, monthOf_eq_iff.mpr ⟨h, h'⟩]

/-- A month ends where the next one begins, February where the year ends. -/
theorem monthLength_ofMarchMonth (year day : Int) {month : Int} (h₀ : 0 ≤ month)
    (h : month ≤ 11) :
    monthLength (ofMarchMonth year month day).year (ofMarchMonth year month day).month =
      min (monthStart (month + 1)) (marchLength year) - monthStart month := by
  unfold marchLength
  interval_cases month
  case «11» =>
    change (if IsLeap (year + 1) then 29 else 28) = _
    split_ifs <;> rfl
  all_goals split_ifs <;> rfl

section Next

variable {year month day : Int} (h₀ : 0 ≤ month) (h : month ≤ 11)
include h₀ h

/-- The next day of a month. -/
theorem next_ofMarchMonth
    (hday : day < min (monthStart (month + 1)) (marchLength year) - monthStart month) :
    (ofMarchMonth year month day).next = ofMarchMonth year month (day + 1) := by
  rw [← monthLength_ofMarchMonth year day h₀ h] at hday
  rw [next, day_ofMarchMonth, if_pos hday]
  unfold ofMarchMonth
  split_ifs <;> rfl

/-- The last day of a month. -/
theorem next_ofMarchMonth_last
    (hday : ¬ day < min (monthStart (month + 1)) (marchLength year) - monthStart month) :
    (ofMarchMonth year month day).next =
      if month = 11 then ofMarchMonth (year + 1) 0 1 else ofMarchMonth year (month + 1) 1 := by
  rw [← monthLength_ofMarchMonth year day h₀ h] at hday
  rw [next, day_ofMarchMonth, if_neg hday]
  interval_cases month <;> rfl

end Next

/-- The month of a day of a year, and where the month begins and ends. -/
theorem exists_month {year day : Int} (h₀ : 0 ≤ day) (h : day < marchLength year) :
    ∃ month, 0 ≤ month ∧ month ≤ 11 ∧ monthStart month ≤ day ∧ day < monthStart (month + 1) := by
  have hlength := marchLength_cases year
  exact ⟨(5 * day + 2) / 153, by omega, by omega, monthOf_eq_iff.mp rfl⟩

/-- **The next day** of a year that begins in March. -/
theorem next_ofMarchYear {year day : Int} (h₀ : 0 ≤ day) (h : day + 1 < marchLength year) :
    (ofMarchYear year day).next = ofMarchYear year (day + 1) := by
  obtain ⟨month, hm₀, hm, hs, he⟩ := exists_month h₀ (Int.lt_trans (Int.lt_succ day) h)
  rw [ofMarchYear_eq hs he]
  rcases Int.lt_or_le (day + 1) (monthStart (month + 1)) with hday | hday
  · rw [ofMarchYear_eq (Int.le_add_one hs) hday, next_ofMarchMonth hm₀ hm]
    · congr 1
      omega
    · omega
  · have hnext : day + 1 = monthStart (month + 1) := Int.le_antisymm he hday
    have hne : month ≠ 11 := by
      rintro rfl
      have hlength := marchLength_cases year
      have hend : monthStart (11 + 1) = 367 := rfl
      omega
    rw [next_ofMarchMonth_last hm₀ hm (by omega), if_neg hne, hnext,
      ofMarchYear_eq (le_refl _) (by unfold monthStart; omega), Int.sub_self, Int.zero_add]

/-- **The last day** of a year that begins in March. -/
theorem next_ofMarchYear_last {year day : Int} (h : day + 1 = marchLength year) :
    (ofMarchYear year day).next = ofMarchYear (year + 1) 0 := by
  have hlength := marchLength_cases year
  have hs : monthStart 11 = 337 := rfl
  have he : monthStart (11 + 1) = 367 := rfl
  rw [ofMarchYear_eq (show monthStart 11 ≤ day by omega) (by omega),
    next_ofMarchMonth_last (by decide) (le_refl _) (by omega), if_pos rfl]
  rfl

/-! ### Division finds the date -/

section Cycles

variable {era century cycle place : Int} (hc : 0 ≤ century ∧ century ≤ 3)
  (hp : 0 ≤ place ∧ place ≤ 3)
include hc hp

/-- Where a year starts, by its place in a cycle of four years, in a century and in 400 years. -/
theorem marchStart_eq (hq : 0 ≤ cycle ∧ cycle ≤ 24) :
    marchStart (400 * era + 100 * century + 4 * cycle + place) =
      146097 * era + 36524 * century + 1461 * cycle + 365 * place := by
  unfold marchStart
  omega

/-- Only the last year of a cycle has a leap day, and of the last cycles of the centuries only the
last one. -/
theorem le_of_lt_marchLength {day : Int}
    (h : day < marchLength (400 * era + 100 * century + 4 * cycle + place)) :
    day ≤ 364 ∨ day = 365 ∧ place = 3 ∧ (cycle = 24 → century = 3) := by
  unfold marchLength IsLeap at h
  split_ifs at h with hleap
  · omega
  · omega

end Cycles

/-- **Division** by the lengths of 400, 100 and 4 years and of one finds the year and the day. -/
theorem ofMarchDays_eq {year day : Int} (h₀ : 0 ≤ day) (h : day < marchLength year) :
    ofMarchDays (marchStart year + day) = ofMarchYear year day := by
  obtain ⟨era, century, cycle, place, hc, hq, hp, rfl⟩ :
      ∃ era century cycle place : Int, (0 ≤ century ∧ century ≤ 3) ∧ (0 ≤ cycle ∧ cycle ≤ 24) ∧
        (0 ≤ place ∧ place ≤ 3) ∧ year = 400 * era + 100 * century + 4 * cycle + place :=
    ⟨year / 400, year / 100 % 4, year / 4 % 25, year % 4, by omega⟩
  have hday := le_of_lt_marchLength hc hp h
  rw [marchStart_eq hc hp hq]
  generalize hn : 146097 * era + 36524 * century + 1461 * cycle + 365 * place + day = n
  -- The leap day that ends an era or a cycle lies behind four centuries of 36524 days or four years
  -- of 365: division alone would count a fifth one, so the minimum is taken.
  have hera : n.fdiv 146097 = era := by
    rw [Int.fdiv_eq_ediv_of_nonneg n (by decide)]
    omega
  have hcentury : min 3 ((n - 146097 * era) / 36524) = century := by omega
  have hcycle : (n - 146097 * era - 36524 * century) / 1461 = cycle := by omega
  have hplace : min 3 ((n - 146097 * era - 36524 * century - 1461 * cycle) / 365) = place := by
    omega
  have hrest : n - 146097 * era - 36524 * century - 1461 * cycle - 365 * place = day := by omega
  simp only [ofMarchDays, hera, hcentury, hcycle, hplace, hrest]
  rfl

/-- **Counting the days**: where the count stands in the year that began in March. -/
theorem onDay_ofMarchYear (n : Nat) :
    ∃ year day, 0 ≤ day ∧ day < marchLength year ∧ marchStart year + day = n + 719468 ∧
      onDay n = ofMarchYear year day := by
  induction n with
  | zero => exact ⟨1969, 306, by decide, by decide, by decide, by decide⟩
  | succ n ih =>
      obtain ⟨year, day, h₀, h, hn, heq⟩ := ih
      rw [onDay_succ, heq, Nat.cast_succ]
      rcases Int.lt_or_le (day + 1) (marchLength year) with hlt | hge
      · exact ⟨year, day + 1, by omega, hlt, by omega, next_ofMarchYear h₀ hlt⟩
      · have hlast : day + 1 = marchLength year := Int.le_antisymm h hge
        have hlength := marchLength_cases (year + 1)
        refine ⟨year + 1, 0, le_refl _, by omega, ?_, next_ofMarchYear_last hlast⟩
        rw [marchStart_succ]
        omega

/-- **The date of a day** is the one that counting the days comes to. -/
theorem ofDays_eq_onDay (n : Nat) : ofDays n = onDay n := by
  obtain ⟨year, day, h₀, h, hn, heq⟩ := onDay_ofMarchYear n
  rw [ofDays, ← hn, ofMarchDays_eq h₀ h, heq]

/-- The year 2000 has a leap day. -/
example : onDay 11016 = ⟨2000, 2, 29⟩ := by
  rw [← ofDays_eq_onDay]
  decide

end CurveKeys.Date
