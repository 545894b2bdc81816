import CurveKeys.Proofs.Bytes.Columns
import CurveKeys.Proofs.Journal.Calendar

/-!
# Journal — times as texts

A time of the years 1970 to 9999 is written in 23 octets that denote it: the date it falls on, counted
from 1 January 1970, and the time of that day down to the millisecond.  The text determines the time,
and the texts of two times stand in the order of the times.

* `Timestamp.Moment`: a date and a time of day, when it is, and the text it has the form of.
* `Timestamp.Dated`: a text denotes a time.
* `Timestamp.ascending_text`: the texts in the order of the times.
-/

namespace CurveKeys.Timestamp

open Decimal

/-- A time of a day. -/
structure Moment where
  date : Date
  hour : Nat
  minute : Nat
  second : Nat
  millisecond : Nat

namespace Moment

/-- The day is in the calendar, and the time on the clock. -/
structure Valid (m : Moment) : Prop where
  date : m.date.Valid
  hour : m.hour < 24
  minute : m.minute < 60
  second : m.second < 60
  millisecond : m.millisecond < 1000

/-- So many milliseconds have passed since 1970 began: counted days, and the time of the day. -/
def IsAt (m : Moment) (ms : Int) : Prop :=
  ∃ days : Nat, m.date = Date.onDay days ∧
    ms = ((((days * 24 + m.hour) * 60 + m.minute) * 60 + m.second) * 1000 + m.millisecond : Nat)

/-- `YYYY-MM-DD HH:MM:SS.mmm`. -/
inductive Form (m : Moment) : Bytes → Prop where
  | intro {year month day hour minute second millisecond : Bytes}
      (hyear : Columns 4 m.date.year year) (hmonth : Columns 2 m.date.month month)
      (hday : Columns 2 m.date.day day) (hhour : Columns 2 m.hour hour)
      (hminute : Columns 2 m.minute minute) (hsecond : Columns 2 m.second second)
      (hmillisecond : Columns 3 m.millisecond millisecond) :
      Form m (year ++ 0x2d :: month ++ 0x2d :: day ++ 0x20 :: hour ++ 0x3a :: minute
        ++ 0x3a :: second ++ 0x2e :: millisecond)

/-- The moment has one text. -/
theorem Form.unique {m : Moment} {s s' : Bytes} (h : m.Form s) (h' : m.Form s') : s = s' := by
  obtain ⟨hY, hM, hD, hh, hm, hs, hms⟩ := h
  obtain ⟨hY', hM', hD', hh', hm', hs', hms'⟩ := h'
  rw [hY.unique hY', hM.unique hM', hD.unique hD', hh.unique hh', hm.unique hm', hs.unique hs',
    hms.unique hms']

theorem Form.year_lt {m : Moment} {s : Bytes} (h : m.Form s) : m.date.year < 10000 := by
  obtain ⟨hY, -, -, -, -, -, -⟩ := h
  exact hY.lt_pow

theorem Form.length {m : Moment} {s : Bytes} (h : m.Form s) : s.length = 23 := by
  obtain ⟨hY, hM, hD, hh, hm, hs, hms⟩ := h
  simp only [List.length_append, List.length_cons, hY.length, hM.length, hD.length, hh.length,
    hm.length, hs.length, hms.length]

end Moment

/-- A text denotes a time. -/
def Dated (text : Bytes) (ms : Int) : Prop := ∃ m : Moment, m.Valid ∧ m.IsAt ms ∧ m.Form text

/-! ### The moment of a time -/

/-- The moment that is `ms` milliseconds after 1970 began. -/
def moment (ms : Nat) : Moment :=
  ⟨Date.onDay (ms / 1000 / 60 / 60 / 24), ms / 1000 / 60 / 60 % 24, ms / 1000 / 60 % 60,
    ms / 1000 % 60, ms % 1000⟩

theorem valid_moment (ms : Nat) : (moment ms).Valid :=
  ⟨Date.valid_onDay _, Nat.mod_lt _ (by decide), Nat.mod_lt _ (by decide),
    Nat.mod_lt _ (by decide), Nat.mod_lt _ (by decide)⟩

theorem isAt_moment (ms : Nat) : (moment ms).IsAt ms := by
  refine ⟨ms / 1000 / 60 / 60 / 24, rfl, ?_⟩
  dsimp only [moment]
  omega

/-- There is no other moment at that time. -/
theorem Moment.IsAt.eq_moment {m : Moment} {ms : Int} (h : m.IsAt ms) (hv : m.Valid) :
    ∃ n : Nat, ms = n ∧ m = moment n := by
  obtain ⟨date, hour, minute, second, millisecond⟩ := m
  obtain ⟨days, hdate, rfl⟩ := h
  obtain ⟨-, hh, hm, hs, hms⟩ := hv
  dsimp only at hdate hh hm hs hms ⊢
  refine ⟨_, rfl, ?_⟩
  rw [hdate, moment, Moment.mk.injEq]
  refine ⟨congrArg Date.onDay ?_, ?_, ?_, ?_, ?_⟩ <;> omega

/-- **The text of a time** is written from its moment. -/
theorem text_natCast (ms : Nat) :
    text ms = ofInt (moment ms).date.year ++ 0x2d :: padded 2 (moment ms).date.month
      ++ 0x2d :: padded 2 (moment ms).date.day ++ 0x20 :: padded 2 (moment ms).hour
      ++ 0x3a :: padded 2 (moment ms).minute ++ 0x3a :: padded 2 (moment ms).second
      ++ 0x2e :: padded 3 (moment ms).millisecond := by
  have hsecond : second ms = (ms / 1000 : Nat) := Int.tdiv_eq_ediv_of_nonneg (Int.natCast_nonneg ms)
  have hfraction : fraction ms = (ms % 1000 : Nat) :=
    Int.tmod_eq_emod_of_nonneg (Int.natCast_nonneg ms)
  have hdays : (second ms).fdiv 86400 = (ms / 1000 / 60 / 60 / 24 : Nat) := by
    rw [hsecond, Int.fdiv_eq_ediv_of_nonneg _ (by decide)]
    omega
  have htime : (second ms).fmod 86400 = (ms / 1000 % 86400 : Nat) := by
    rw [hsecond, Int.fmod_eq_emod_of_nonneg _ (by decide)]
    rfl
  have hhour : ((ms / 1000 % 86400 : Nat) : Int) / 3600 = (ms / 1000 / 60 / 60 % 24 : Nat) := by
    omega
  have hminute : ((ms / 1000 % 86400 : Nat) : Int) / 60 % 60 = (ms / 1000 / 60 % 60 : Nat) := by
    omega
  have hpart : ((ms / 1000 % 86400 : Nat) : Int) % 60 = (ms / 1000 % 60 : Nat) := by omega
  simp only [text, hdays, htime, hfraction, hhour, hminute, hpart, Date.ofDays_eq_onDay]
  rfl

/-! ### The form of the text -/

/-- The columns of a date. -/
theorem columns_date {d : Date} (h : d.Valid) (h₀ : 1000 ≤ d.year) (hy : d.year < 10000) :
    Columns 4 d.year (ofInt d.year) ∧ Columns 2 d.month (padded 2 d.month) ∧
      Columns 2 d.day (padded 2 d.day) := by
  obtain ⟨⟨hm, hm'⟩, hd, hd'⟩ := h
  have hlength := (Date.monthLength_bounds d.year d.month).2
  refine ⟨?_, columns_padded (by omega) ?_, columns_padded (by omega) ?_⟩
  · rw [← padded_eq_ofInt (show 10 ^ (2 + 1) ≤ d.year from h₀)]
    exact columns_padded (by omega) hy
  · exact Int.lt_of_le_of_lt hm' (by decide)
  · exact Int.lt_of_le_of_lt (Int.le_trans hd' hlength) (by decide)

/-- From 1970 on the year has four digits. -/
theorem year_ge (n : Nat) : 1000 ≤ (Date.onDay n).year :=
  Int.le_trans (by decide) (Date.year_onDay_le (Nat.zero_le n))

theorem form_text {ms : Nat} (hy : (moment ms).date.year < 10000) :
    (moment ms).Form (text ms) := by
  obtain ⟨hyear, hmonth, hday⟩ := columns_date (valid_moment ms).date (year_ge _) hy
  rw [text_natCast]
  exact .intro hyear hmonth hday (columns_mod (by decide) (by decide) _)
    (columns_mod (by decide) (by decide) _) (columns_mod (by decide) (by decide) _)
    (columns_mod (by decide) (by decide) _)

theorem dated_text {ms : Nat} (hy : (moment ms).date.year < 10000) : Dated (text ms) ms :=
  ⟨moment ms, valid_moment ms, isAt_moment ms, form_text hy⟩

/-! ### The order of the texts -/

/-- `YYYY-MM-DD`. -/
def dateText (d : Date) : Bytes :=
  ofInt d.year ++ 0x2d :: padded 2 d.month ++ 0x2d :: padded 2 d.day

theorem ascending_date {bound : Nat} (hy : ∀ n < bound, (Date.onDay n).year < 10000) :
    Ascending bound 10 fun n => dateText (Date.onDay n) := by
  have columns {n : Nat} (hn : n < bound) := columns_date (Date.valid_onDay n) (year_ge n) (hy n hn)
  constructor
  · intro n hn
    obtain ⟨hyear, hmonth, hday⟩ := columns hn
    simp only [dateText, List.length_append, List.length_cons, hyear.length, hmonth.length,
      hday.length]
  · intro m n hmn hn
    obtain ⟨hyear, hmonth, hday⟩ := columns (Nat.lt_trans hmn hn)
    obtain ⟨hyear', hmonth', hday'⟩ := columns hn
    have hyears := hyear.length.trans hyear'.length.symm
    refine append_cons_lt_append_cons ?_ ?_ 0x2d
    · rw [List.length_append, List.length_append, List.length_cons, List.length_cons, hyears,
        hmonth.length, hmonth'.length]
    · rcases Date.onDay_before hmn with hlt | ⟨heq, hlt | ⟨heq', hlt⟩⟩
      · exact .inl (append_cons_lt_append_cons hyears (.inl (hyear.lt hyear' hlt)) _)
      · exact .inl (append_cons_lt_append_cons hyears
          (.inr ⟨congrArg ofInt heq, hmonth.lt hmonth' hlt⟩) _)
      · exact .inr ⟨by rw [heq, heq'], hday.lt hday' hlt⟩

/-- **The texts stand in the order of the times**, as those of the days do: hours, minutes, seconds
and milliseconds tell apart the times that share what is written in front of them. -/
theorem ascending_text {bound : Nat} (hy : ∀ n < bound, (Date.onDay n).year < 10000) :
    Ascending (bound * 24 * 60 * 60 * 1000) 23 fun ms => text ms := by
  have hours := (ascending_date hy).append_padded (show 0 < 24 by decide)
    (show 24 ≤ 10 ^ (1 + 1) by decide) 0x20
  have minutes := hours.append_padded (show 0 < 60 by decide) (show 60 ≤ 10 ^ (1 + 1) by decide) 0x3a
  have seconds := minutes.append_padded (show 0 < 60 by decide) (show 60 ≤ 10 ^ (1 + 1) by decide)
    0x3a
  have milliseconds := seconds.append_padded (show 0 < 1000 by decide)
    (show 1000 ≤ 10 ^ (2 + 1) by decide) 0x2e
  rwa [show (fun ms : Nat => text ms) = _ from funext text_natCast]

/-! ### Reading a text -/

/-- **A text denotes one time**, and is the text of that time. -/
theorem Dated.eq_text {s : Bytes} {t : Int} (h : Dated s t) :
    ∃ n : Nat, t = n ∧ s = text n ∧ (moment n).date.year < 10000 := by
  obtain ⟨m, hv, hat, hform⟩ := h
  obtain ⟨n, rfl, rfl⟩ := hat.eq_moment hv
  exact ⟨n, rfl, hform.unique (form_text hform.year_lt), hform.year_lt⟩

/-- Of two times the earlier has the smaller text. -/
theorem text_lt_text {m n : Nat} (h : m < n) (hy : (moment n).date.year < 10000) :
    text m < text n := by
  have hdays : ∀ k < n / 1000 / 60 / 60 / 24 + 1, (Date.onDay k).year < 10000 := fun k hk =>
    Int.lt_of_le_of_lt (Date.year_onDay_le (Nat.le_of_lt_succ hk)) hy
  exact (ascending_text hdays).lt m n h (by omega)

theorem dated_text_iff {n : Nat} (hy : (moment n).date.year < 10000) {t : Int} :
    Dated (text n) t ↔ t = n := by
  constructor
  · intro h
    obtain ⟨k, rfl, heq, hk⟩ := h.eq_text
    rcases Nat.lt_trichotomy k n with hlt | rfl | hgt
    · exact absurd (heq ▸ text_lt_text hlt hy) (List.lt_irrefl _)
    · rfl
    · exact absurd (heq ▸ text_lt_text hgt hk) (List.lt_irrefl _)
  · rintro rfl
    exact dated_text hy

/-- **Texts sort by time.**  The text of a time from 1970 on and before the year 10000 has 23 octets
and denotes that time and no other: its columns are a date of the calendar, found by counting the days
since 1 January 1970, and a time of that day.  Of two such times the earlier has the smaller text. -/
theorem text_chronological {t₁ t₂ : Int} (h₀ : 0 ≤ t₁) (h : t₁ < t₂)
    (hy : (Date.onDay (t₂ / 86400000).toNat).year < 10000) :
    (∀ t, Dated (text t₁) t ↔ t = t₁) ∧ (∀ t, Dated (text t₂) t ↔ t = t₂) ∧
      (text t₁).length = 23 ∧ (text t₂).length = 23 ∧ text t₁ < text t₂ := by
  lift t₁ to Nat using h₀
  lift t₂ to Nat using Int.le_trans (Int.natCast_nonneg t₁) (Int.le_of_lt h)
  have hlt : t₁ < t₂ := Int.ofNat_lt.mp h
  have hday : (t₂ / 86400000 : Int).toNat = t₂ / 1000 / 60 / 60 / 24 := by omega
  have hy₂ : (moment t₂).date.year < 10000 := by rwa [hday] at hy
  have hy₁ : (moment t₁).date.year < 10000 :=
    Int.lt_of_le_of_lt (Date.year_onDay_le (by omega)) hy₂
  exact ⟨fun _ => dated_text_iff hy₁, fun _ => dated_text_iff hy₂, (form_text hy₁).length,
    (form_text hy₂).length, text_lt_text hlt hy₂⟩

/-- The last millisecond before a leap day and the first one of it. -/
theorem text_chronological_leapDay :
    Dated (text 951782399999) 951782399999 ∧ Dated (text 951782400000) 951782400000 ∧
      text 951782399999 < text 951782400000 := by
  have hy : (Date.onDay (951782400000 / 86400000 : Int).toNat).year < 10000 := by
    rw [← Date.ofDays_eq_onDay]
    decide
  obtain ⟨before, after, -, -, hlt⟩ :=
    text_chronological (show (0 : Int) ≤ 951782399999 by decide) (by decide) hy
  exact ⟨(before _).mpr rfl, (after _).mpr rfl, hlt⟩

end CurveKeys.Timestamp
