/-
Dates follow one another as days do.

`Date.ofDayNumber` cuts the number of a day into an era of 400 years, a year of the
era, a month and a day of the month, with years that begin in March. Every cut is
monotone, and so is the way back from such years to those of the calendar:

* `yearOfEra_spec` — the year of an era is the one whose days are around the day;
* `falls_ofDayNumber` — the parts of a day number, with the bounds of each part;
* `ofDayNumber_lt` — a later day has a later date;
* `month_ofDayNumber`, `day_ofDayNumber` — month and day have at most two digits.
-/
import Mailroom.Time.Calendar
import Mathlib.Tactic.Common

namespace Mailroom.Time

/-- The days of an era before its year `y`, where years begin in March. -/
def daysBeforeYear (y : Int) : Int := 365 * y + y / 4 - y / 100

/-- The days of a year before its month `m`, where March is month 0. -/
def daysBeforeMonth (m : Int) : Int := (153 * m + 2) / 5

/-- The year of an era in which its day `d` lies. -/
def yearOfEra (d : Int) : Int := (d - d / 1460 + d / 36524 - d / 146096) / 365

/-! ### Years of an era -/

/-- With a leap day at the end of every century, the days fall into groups of four years. -/
theorem yearOfEra_eq {d e k s : Int} (h0 : 0 ≤ d) (h1 : d < 146096) (he : e = d / 36524)
    (hd : d + e = 1461 * k + s) (hs0 : 0 ≤ s) (hs : s < 1461) :
    yearOfEra d = 4 * k + (if s = 1460 then 3 else s / 365) := by
  have hk : e ≤ k ∧ k ≤ 99 := by omega
  have hc : d / 1460 = k + (k + s - e) / 1460 := by omega
  have hf : d / 146096 = 0 := by omega
  have hr : (k + s - e) / 1460 = 0 ∧ k + s - e < 1460 ∨
      (k + s - e) / 1460 = 1 ∧ 1460 ≤ k + s - e := by omega
  unfold yearOfEra
  split <;> omega

theorem yearOfEra_spec {d : Int} (h0 : 0 ≤ d) (h1 : d < 146097) :
    0 ≤ yearOfEra d ∧ yearOfEra d ≤ 399 ∧ daysBeforeYear (yearOfEra d) ≤ d ∧
      d ≤ daysBeforeYear (yearOfEra d) + 365 ∧
      (yearOfEra d < 399 → d < daysBeforeYear (yearOfEra d + 1)) := by
  rcases eq_or_ne d 146096 with rfl | hd
  · decide
  · obtain ⟨e, he⟩ : ∃ e, e = d / 36524 := ⟨_, rfl⟩
    obtain ⟨k, s, hks, hs0, hs⟩ : ∃ k s, d + e = 1461 * k + s ∧ 0 ≤ s ∧ s < 1461 :=
      ⟨(d + e) / 1461, (d + e) % 1461, by omega, by omega, by omega⟩
    have hk : e = k / 25 := by omega
    obtain ⟨j, hj⟩ : ∃ j, j = (if s = 1460 then 3 else s / 365) := ⟨_, rfl⟩
    have hj3 : 0 ≤ j ∧ j ≤ 3 ∧ 365 * j ≤ s ∧ s ≤ 365 * j + 365 ∧ (j < 3 → s < 365 * j + 365) := by
      split at hj <;> omega
    rw [yearOfEra_eq h0 (by omega) he hks hs0 hs, ← hj]
    unfold daysBeforeYear
    have h4 : (4 * k + j) / 4 = k := by omega
    have h100 : (4 * k + j) / 100 = e := by omega
    refine ⟨by omega, by omega, by omega, by omega, ?_⟩
    intro hlt
    -- The next year lies in the same group of four, or it is the first of the next group.
    rcases eq_or_ne j 3 with rfl | hne
    · have h4' : (4 * k + 3 + 1) / 4 = k + 1 := by omega
      have h100' : (4 * k + 3 + 1) / 100 = (k + 1) / 25 := by omega
      rw [h4', h100']
      omega
    · have h4' : (4 * k + j + 1) / 4 = k := by omega
      have h100' : (4 * k + j + 1) / 100 = e := by omega
      rw [h4', h100']
      omega

/-! ### Days -/

/-- How a day falls into an era, a year of it, a month and a day of the month. Years begin
in March; the day counts from the beginning of the first era. -/
structure Falls (n era year month day : Int) : Prop where
  total : n = era * 146097 + daysBeforeYear year + daysBeforeMonth month + day - 1
  year_nonneg : 0 ≤ year
  year_le : year ≤ 399
  month_nonneg : 0 ≤ month
  month_le : month ≤ 11
  day_pos : 1 ≤ day
  day_le : day ≤ 31
  before_month : month < 11 → daysBeforeMonth month + day - 1 < daysBeforeMonth (month + 1)
  before_year : year < 399 → n < era * 146097 + daysBeforeYear (year + 1)
  before_era : n < (era + 1) * 146097

/-- Months counted from the beginning of the year 0. -/
def Date.monthIndex (d : Date) : Int := 12 * d.year + d.month

/-- The date of a day that falls into these parts. -/
structure Date.IsOf (date : Date) (era year month day : Int) : Prop where
  monthIndex_eq : date.monthIndex = 12 * (400 * era + year) + month + 3
  month_pos : 1 ≤ date.month
  month_le : date.month ≤ 12
  day_eq : (date.day : Int) = day

theorem falls_ofDayNumber (n : Int) : ∃ era year month day,
    Falls (n + 719468) era year month day ∧ (Date.ofDayNumber n).IsOf era year month day := by
  obtain ⟨e, he⟩ : ∃ e, e = (n + 719468) / 146097 := ⟨_, rfl⟩
  obtain ⟨d, hd⟩ : ∃ d, d = (n + 719468) % 146097 := ⟨_, rfl⟩
  obtain ⟨y, hy⟩ : ∃ y, y = yearOfEra d := ⟨_, rfl⟩
  obtain ⟨hy0, hy1, hle, hlt, hnext⟩ := yearOfEra_spec (d := d) (by omega) (by omega)
  rw [← hy] at hy0 hy1 hle hlt hnext
  obtain ⟨r, hr⟩ : ∃ r, r = d - daysBeforeYear y := ⟨_, rfl⟩
  obtain ⟨m, hm⟩ : ∃ m, m = (5 * r + 2) / 153 := ⟨_, rfl⟩
  have hbefore : daysBeforeMonth m ≤ r ∧ r ≤ daysBeforeMonth m + 30 := by
    unfold daysBeforeMonth
    omega
  have hdate : Date.ofDayNumber n = ⟨if (if m < 10 then m + 3 else m - 9) ≤ 2
      then e * 400 + y + 1 else e * 400 + y, (if m < 10 then m + 3 else m - 9).toNat,
      (r - daysBeforeMonth m + 1).toNat⟩ := by
    subst hm hr hy hd he
    rfl
  -- the parts with their bounds first, then the date that is made of them
  refine ⟨e, y, m, r - daysBeforeMonth m + 1,
    ⟨?_, hy0, hy1, ?_, ?_, ?_, ?_, ?_, ?_, ?_⟩, ⟨?_, ?_, ?_, ?_⟩⟩
  · omega
  · omega
  · omega
  · omega
  · omega
  · unfold daysBeforeMonth
    omega
  · omega
  · omega
  · rw [hdate, Date.monthIndex]
    split_ifs <;> simp only [] <;> omega
  · rw [hdate]
    split_ifs <;> simp only [] <;> omega
  · rw [hdate]
    split_ifs <;> simp only [] <;> omega
  · rw [hdate]
    simp only []
    omega

/-- The parts of a later day are later, compared one after another. -/
theorem Falls.lt {m n era year month day era' year' month' day' : Int}
    (h : Falls m era year month day) (h' : Falls n era' year' month' day') (hlt : m < n) :
    12 * (400 * era + year) + month < 12 * (400 * era' + year') + month' ∨
      12 * (400 * era + year) + month = 12 * (400 * era' + year') + month' ∧ day < day' := by
  obtain ⟨ht, hy0, hy1, hm0, hm1, hd, -, hbm, hby, hbe⟩ := h
  obtain ⟨ht', hy0', hy1', hm0', hm1', hd', -, hbm', hby', hbe'⟩ := h'
  unfold daysBeforeYear daysBeforeMonth at *
  -- the first part that differs decides, from the largest to the smallest
  have hera : era ≤ era' := by omega
  rcases Int.lt_or_eq_of_le hera with hera | rfl
  · left
    omega
  · have hyear : year ≤ year' := by omega
    rcases Int.lt_or_eq_of_le hyear with hyear | rfl
    · left
      omega
    · have hmonth : month ≤ month' := by omega
      rcases Int.lt_or_eq_of_le hmonth with hmonth | rfl
      · left
        omega
      · right
        omega

/-! ### Dates -/

theorem ofDayNumber_lt {m n : Int} (h : m < n) :
    (Date.ofDayNumber m).monthIndex < (Date.ofDayNumber n).monthIndex ∨
      (Date.ofDayNumber m).monthIndex = (Date.ofDayNumber n).monthIndex ∧
        (Date.ofDayNumber m).day < (Date.ofDayNumber n).day := by
  obtain ⟨era, year, month, day, hf, hd⟩ := falls_ofDayNumber m
  obtain ⟨era', year', month', day', hf', hd'⟩ := falls_ofDayNumber n
  have hlt := hf.lt hf' (by omega)
  have hi := hd.monthIndex_eq
  have hi' := hd'.monthIndex_eq
  have hday := hd.day_eq
  have hday' := hd'.day_eq
  omega

theorem month_ofDayNumber (n : Int) :
    1 ≤ (Date.ofDayNumber n).month ∧ (Date.ofDayNumber n).month ≤ 12 := by
  obtain ⟨_, _, _, _, _, hd⟩ := falls_ofDayNumber n
  exact ⟨hd.month_pos, hd.month_le⟩

theorem day_ofDayNumber (n : Int) :
    1 ≤ (Date.ofDayNumber n).day ∧ (Date.ofDayNumber n).day ≤ 31 := by
  obtain ⟨_, _, _, _, hf, hd⟩ := falls_ofDayNumber n
  have := hd.day_eq
  have := hf.day_pos
  have := hf.day_le
  omega

end Mailroom.Time
