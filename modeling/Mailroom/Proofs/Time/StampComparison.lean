/-
A comparison of stamps is a comparison of instants.

Two stamps of years from 0 to 9999 compare as texts as their instants compare in time, to the
millisecond. A leap second is no exception: its stamp shows second 60, which stands behind all
of second 59 and before the next minute.

* `Instant.Before`, `Instant.toMillis` — the order of instants, and the precision of stamps;
* `secondChars_lt_iff` — the rests of two stamps of one minute;
* `stamp_lt_iff` — two stamps;
* `stamp_lt_iff_of_year_le` — the same where the later stamp may be of any year before 10000;
* `stamps_compare_as_instants` — two stamps, a cutoff, and the rows that it picks out.
-/
import Mailroom.Proofs.Time.DaysBack

namespace Mailroom

namespace Time.Instant

/-- Whether an instant comes before another one. Within a second, a leap second that follows
it included, the nanoseconds decide. -/
def Before (a b : Instant) : Prop :=
  a.seconds < b.seconds ∨ a.seconds = b.seconds ∧ a.nanos < b.nanos

instance (a b : Instant) : Decidable (a.Before b) := inferInstanceAs (Decidable (_ ∨ _ ∧ _))

/-- The beginning of the millisecond in which an instant lies. -/
def toMillis (t : Instant) : Instant := { t with nanos := t.nanos / 1000000 * 1000000 }

variable {a b : Instant}

/-! ### Two stamps of one minute -/

theorem minuteChars_congr (h : a.seconds / 60 = b.seconds / 60) :
    a.minuteChars = b.minuteChars := by
  have hdate : a.date = b.date :=
    congrArg Date.ofDayNumber (show a.seconds / 86400 = b.seconds / 86400 by omega)
  have hhour : a.secondOfDay / 3600 = b.secondOfDay / 3600 := by
    unfold secondOfDay
    omega
  have hminute : a.secondOfDay / 60 % 60 = b.secondOfDay / 60 % 60 := by
    unfold secondOfDay
    omega
  rw [minuteChars, minuteChars, hdate, hhour, hminute]

theorem secondOfDay_mod (t : Instant) : ((t.secondOfDay % 60 : Nat) : Int) = t.seconds % 60 := by
  unfold secondOfDay
  omega

/-- A stamp shows second 60 at the most. -/
theorem shownSecond_lt (ht : a.IsUniversal) :
    a.secondOfDay % 60 + a.nanos / 1000000000 < 10 ^ 2 := by
  have hlt := ht.nanos_lt
  omega

theorem length_secondChars (ht : a.IsUniversal) : a.secondChars.length = 8 := by
  have hsecond := shownSecond_lt ht
  rw [secondChars]
  simp only [List.length_append, List.length_cons, List.length_nil]
  rw [Text.length_padded (by decide) hsecond, Text.length_padded (by decide) (by omega)]

theorem secondChars_lt_iff (ha : a.IsUniversal) (hb : b.IsUniversal)
    (h : a.seconds / 60 = b.seconds / 60) :
    a.secondChars < b.secondChars ↔ a.toMillis.Before b.toMillis := by
  have hsa := shownSecond_lt ha
  have hsb := shownSecond_lt hb
  have hma := a.secondOfDay_mod
  have hmb := b.secondOfDay_mod
  rw [secondChars, secondChars, List.cons_lt_cons_iff,
    Text.padded_append_lt_iff (by decide) hsa hsb, List.cons_lt_cons_iff,
    Text.padded_append_lt_iff (by decide) (by omega) (by omega)]
  simp only [Char.lt_irrefl, List.lt_irrefl, false_or, true_and, and_false, or_false]
  obtain ⟨hna, hleapa⟩ := ha
  obtain ⟨hnb, hleapb⟩ := hb
  -- what is shown decides as the count does, since a leap second follows second 59 only
  show _ ↔ a.seconds < b.seconds ∨ a.seconds = b.seconds ∧
    a.nanos / 1000000 * 1000000 < b.nanos / 1000000 * 1000000
  omega

/-! ### Two stamps -/

theorem length_stamp (ht : a.IsUniversal) (hyear : a.HasShortYear) : a.stamp.length = 24 := by
  rw [stamp, String.length_ofList, stampChars_eq, List.length_append, length_minuteChars hyear,
    length_secondChars ht]

theorem Before.asymm (h : a.Before b) : ¬ b.Before a := by
  unfold Before at *
  omega

theorem before_of_minute_lt (h : a.seconds / 60 < b.seconds / 60) : a.toMillis.Before b.toMillis :=
  .inl (show a.seconds < b.seconds by omega)

/-- Within a minute stamps compare as instants do, and so in whole if their minutes decide. -/
theorem stamp_lt_iff_of_minutes (ha : a.IsUniversal) (hb : b.IsUniversal)
    (hab : a.seconds / 60 < b.seconds / 60 → a.stamp < b.stamp)
    (hba : b.seconds / 60 < a.seconds / 60 → b.stamp < a.stamp) :
    a.stamp < b.stamp ↔ a.toMillis.Before b.toMillis := by
  rcases Int.lt_trichotomy (a.seconds / 60) (b.seconds / 60) with h | h | h
  · exact iff_of_true (hab h) (before_of_minute_lt h)
  · rw [String.lt_iff, stamp, stamp, String.toList_ofList, String.toList_ofList, stampChars_eq,
      stampChars_eq, minuteChars_congr h, Text.append_lt_append_iff rfl,
        ← secondChars_lt_iff ha hb h]
    simp only [List.lt_irrefl, false_or, true_and]
  · exact iff_of_false (String.lt_asymm (hba h)) (before_of_minute_lt h).asymm

theorem stamp_lt_iff (ha : a.IsUniversal) (hb : b.IsUniversal) (hya : a.HasShortYear)
    (hyb : b.HasShortYear) : a.stamp < b.stamp ↔ a.toMillis.Before b.toMillis :=
  stamp_lt_iff_of_minutes ha hb (stamp_lt_of_minute_lt hya hyb) (stamp_lt_of_minute_lt hyb hya)

/-- Two stamps of one year compare so, whatever the year. -/
theorem stamp_lt_iff_of_year_eq (ha : a.IsUniversal) (hb : b.IsUniversal)
    (hyear : a.date.year = b.date.year) : a.stamp < b.stamp ↔ a.toMillis.Before b.toMillis :=
  stamp_lt_iff_of_minutes ha hb (stamp_lt_of_minute_lt_of_year_eq hyear)
    (stamp_lt_of_minute_lt_of_year_eq hyear.symm)

/-- Nothing of the years from 0 on stands before a stamp of an earlier year, and nothing of them
lies before it. -/
theorem stamp_lt_iff_of_year_le (ha : a.IsUniversal) (hb : b.IsUniversal) (hya : a.HasShortYear)
    (hyb : b.date.year ≤ 9999) : a.stamp < b.stamp ↔ a.toMillis.Before b.toMillis := by
  rcases Int.lt_or_le b.date.year 0 with hneg | hpos
  · have hearlier : b.seconds < a.seconds := by
      by_contra hlate
      have hyear := year_le_of_seconds_le (a := a) (b := b) (by omega)
      have hnonneg := hya.1
      omega
    exact iff_of_false (String.lt_asymm (stamp_lt_of_year_neg hneg hya))
      (Before.asymm (.inl hearlier))
  · exact stamp_lt_iff ha hb hya ⟨hpos, hyb⟩

end Time.Instant

open Time

/-! ### Cutoffs -/

/-- Stamps of years from 0 to 9999 have 24 characters and compare as their instants do, to the
millisecond. A cutoff is the stamp of the instant so many days before, which may be of an earlier
year, and a row is picked out by it if and only if its instant lies before that instant. -/
theorem stamps_compare_as_instants :
    (∀ a b : Instant, a.IsUniversal → b.IsUniversal → a.HasShortYear → b.HasShortYear →
      a.stamp.length = 24 ∧ b.stamp.length = 24 ∧
      (a.stamp < b.stamp ↔ a.toMillis.Before b.toMillis)) ∧
    ∀ (days : Nat) (now e : Instant), now.IsUniversal → now.HasShortYear →
      e.IsDaysBefore days now → e.inRange →
      cutoff days now = .ok e.stamp ∧
      ∀ (t : Instant) (r : MessageRow), t.IsUniversal → t.HasShortYear →
        (r.archivedAt = some t.stamp →
          (r.isPrunable e.stamp ↔ r.has .archived ∧ t.toMillis.Before e.toMillis)) ∧
        (r.readAt.getD r.createdAt = t.stamp →
          (r.isArchivable e.stamp ↔ r.has .read ∧ t.toMillis.Before e.toMillis)) := by
  refine ⟨fun a b ha hb hya hyb => ?_, fun days now e hnow hyear he hreach => ⟨?_, ?_⟩⟩
  · exact ⟨Instant.length_stamp ha hya, Instant.length_stamp hb hyb,
      Instant.stamp_lt_iff ha hb hya hyb⟩
  · rw [cutoff_of_isDaysBefore hnow (Instant.inRange_of_hasShortYear hyear) he, if_pos hreach]
  · intro t r ht hty
    have hle : e.date.year ≤ now.date.year := Instant.year_le_of_seconds_le (he.seconds_le hnow)
    have hlt := Instant.stamp_lt_iff_of_year_le ht (he.isUniversal hnow) hty
      (Int.le_trans hle hyear.2)
    refine ⟨fun harchived => ?_, fun hread => ?_⟩
    · rw [MessageRow.isPrunable, harchived, Bool.and_eq_true, Option.any_some,
        decide_eq_true_eq, hlt]
    · rw [MessageRow.isArchivable, hread, Bool.and_eq_true, decide_eq_true_eq, hlt]

/-- The end of the leap second with which the year 2016 ended. -/
def leapSecond2016 : Instant := ⟨1483228799, 1999999999⟩

/-- The beginning of the year 2017. -/
def newYear2017 : Instant := ⟨1483228800, 0⟩

/-- The year 175 before the common era. -/
def antiquity : Instant := ⟨-67636771200, 0⟩

/-- A message that was archived in that leap second. -/
def leapRow : MessageRow :=
  (⟨"m1", "a", "b", .request, .normal, noConvoy, "hi", .archived, "2016-12-01T00:00:00.000Z",
    none, some leapSecond2016.stamp⟩ : Message).row

theorem stamps_compare_as_instants_leapSecond :
    leapSecond2016.IsUniversal ∧ newYear2017.IsUniversal ∧ leapSecond2016.HasShortYear ∧
      newYear2017.HasShortYear ∧ antiquity.IsDaysBefore 800000 newYear2017 ∧
      antiquity.inRange ∧ antiquity.date.year = -174 ∧
      leapSecond2016.stamp.length = 24 ∧ leapSecond2016.stamp < newYear2017.stamp ∧
      cutoff 0 newYear2017 = .ok newYear2017.stamp ∧ leapRow.isPrunable newYear2017.stamp ∧
      cutoff 800000 newYear2017 = .ok antiquity.stamp ∧ ¬ leapRow.isPrunable antiquity.stamp := by
  have hleap : leapSecond2016.IsUniversal := ⟨by decide, by decide⟩
  have hnew : newYear2017.IsUniversal := ⟨by decide, by decide⟩
  have hleapYear : leapSecond2016.HasShortYear := by
    unfold leapSecond2016 Instant.HasShortYear
    decide
  have hnewYear : newYear2017.HasShortYear := by
    unfold newYear2017 Instant.HasShortYear
    decide
  have hnone : newYear2017.IsDaysBefore 0 newYear2017 := Instant.isDaysBefore_iff.2 rfl
  have hmany : antiquity.IsDaysBefore 800000 newYear2017 := Instant.isDaysBefore_iff.2 (by decide)
  obtain ⟨hcompare, hcutoff⟩ := stamps_compare_as_instants
  obtain ⟨hlength, -, hlt⟩ := hcompare leapSecond2016 newYear2017 hleap hnew hleapYear hnewYear
  obtain ⟨hzero, hpicks⟩ := hcutoff 0 newYear2017 newYear2017 hnew hnewYear hnone (by decide)
  obtain ⟨hbefore, hleaves⟩ := hcutoff 800000 newYear2017 antiquity hnew hnewYear hmany (by decide)
  refine ⟨hleap, hnew, hleapYear, hnewYear, hmany, by decide, by decide, hlength, hlt.2 (by decide),
    hzero, ?_, hbefore, ?_⟩
  · exact ((hpicks leapSecond2016 leapRow hleap hleapYear).1 rfl).2 ⟨by decide, by decide⟩
  · rw [(hleaves leapSecond2016 leapRow hleap hleapYear).1 rfl]
    decide

end Mailroom
