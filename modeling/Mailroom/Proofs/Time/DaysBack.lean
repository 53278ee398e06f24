/-
Going back by days.

The instant some days before another one lies so many times 24 hours before it, on a count of
nanoseconds that goes on through a leap second. There is always one such instant; the calendar
decides only whether it reaches that far.

* `Instant.IsUniversal` — an instant of universal time, as a Unix time denotes it;
* `Instant.IsDaysBefore` — an instant lies so many days before another one;
* `isDaysBefore_iff` — there is one such instant, and only one;
* `cutoff_of_isDaysBefore` — so it is the moment of a cutoff.
-/
import Mailroom.Proofs.Time.StampOrder

namespace Mailroom

namespace Time.Instant

/-! ### Instants of universal time -/

/-- Whether this is an instant of universal time: of all seconds of a minute only the last one
can be followed by a leap second, which is counted with it. -/
structure IsUniversal (t : Instant) : Prop where
  nanos_lt : t.nanos < 2000000000
  leap : 1000000000 ≤ t.nanos → t.seconds % 60 = 59

/-! ### The seconds of the years from 0 to 9999 -/

theorem seconds_lt_of_year_le {t : Instant} (h : t.date.year ≤ 9999) :
    t.seconds < 253402300800 := by
  by_contra hlate
  have hyear := year_le_of_seconds_le (a := ⟨253402300800, 0⟩) (b := t) (by simpa using hlate)
  have hnext : (⟨253402300800, 0⟩ : Instant).date.year = 10000 := by decide
  omega

theorem seconds_ge_of_year_nonneg {t : Instant} (h : 0 ≤ t.date.year) :
    -62167219200 ≤ t.seconds := by
  by_contra hearly
  have hyear := year_le_of_seconds_le (a := t) (b := ⟨-62167219201, 0⟩)
    (show t.seconds ≤ -62167219201 by omega)
  have hbefore : (⟨-62167219201, 0⟩ : Instant).date.year = -1 := by decide
  omega

theorem inRange_iff {t : Instant} :
    t.inRange = true ↔ firstSecond ≤ t.seconds ∧ t.seconds ≤ lastSecond := by
  rw [inRange, Bool.and_eq_true, decide_eq_true_eq, decide_eq_true_eq]

theorem inRange_of_hasShortYear {t : Instant} (h : t.HasShortYear) : t.inRange := by
  have hfirst := seconds_ge_of_year_nonneg h.1
  have hlast := seconds_lt_of_year_le h.2
  rw [inRange_iff]
  unfold firstSecond lastSecond
  omega

/-! ### Days of 24 hours -/

/-- The nanoseconds since 1970. -/
def unixNanos (t : Instant) : Int := t.seconds * 1000000000 + t.nanos

/-- The nanoseconds of so many days. -/
def nanosOfDays (days : Nat) : Int := days * 86400 * 1000000000

/-- An instant lies so many days of 24 hours before another one. No days before an instant is that
instant, also if it is one of a leap second; otherwise it is none of a leap second. -/
structure IsDaysBefore (e : Instant) (days : Nat) (now : Instant) : Prop where
  elapsed : e.unixNanos + nanosOfDays days = now.unixNanos
  of_zero : days = 0 → e = now
  of_pos : 0 < days → e.nanos < 1000000000

/-- The instant so many days earlier, wherever the calendar ends. -/
def earlier (t : Instant) (days : Nat) : Instant :=
  if days = 0 then t
  else ⟨t.seconds + t.nanos / 1000000000 - days * 86400, t.nanos % 1000000000⟩

variable {now e e' : Instant} {days : Nat}

theorem isDaysBefore_earlier (t : Instant) (days : Nat) : (t.earlier days).IsDaysBefore days t := by
  rcases Nat.eq_zero_or_pos days with rfl | hdays
  · exact ⟨by simp [earlier, nanosOfDays], fun _ => rfl, fun h => absurd h (Nat.lt_irrefl 0)⟩
  · rw [earlier, if_neg (by omega)]
    refine ⟨?_, fun h => absurd h (by omega), fun _ => Nat.mod_lt _ (by decide)⟩
    simp only [unixNanos, nanosOfDays]
    omega

theorem IsDaysBefore.unique (h : e.IsDaysBefore days now) (h' : e'.IsDaysBefore days now) :
    e = e' := by
  rcases Nat.eq_zero_or_pos days with hdays | hdays
  · rw [h.of_zero hdays, h'.of_zero hdays]
  · have hnanos := h.of_pos hdays
    have hnanos' := h'.of_pos hdays
    have helapsed : e.unixNanos + nanosOfDays days = e'.unixNanos + nanosOfDays days :=
      h.elapsed.trans h'.elapsed.symm
    cases e
    cases e'
    simp only [unixNanos, mk.injEq] at *
    omega

theorem isDaysBefore_iff : e.IsDaysBefore days now ↔ e = now.earlier days :=
  ⟨fun h => h.unique (isDaysBefore_earlier now days), fun h => h ▸ isDaysBefore_earlier now days⟩

/-- No leap second is reached by going back, but one stays where one is. -/
theorem IsDaysBefore.isUniversal (h : e.IsDaysBefore days now) (hnow : now.IsUniversal) :
    e.IsUniversal := by
  rcases Nat.eq_zero_or_pos days with hdays | hdays
  · rw [h.of_zero hdays]
    exact hnow
  · have hnanos := h.of_pos hdays
    exact ⟨by omega, fun hleap => absurd hnanos (by omega)⟩

theorem IsDaysBefore.seconds_le (h : e.IsDaysBefore days now) (hnow : now.IsUniversal) :
    e.seconds ≤ now.seconds := by
  rcases Nat.eq_zero_or_pos days with hdays | hdays
  · exact Int.le_of_eq (congrArg seconds (h.of_zero hdays))
  · have helapsed := h.elapsed
    have hnanos := hnow.nanos_lt
    simp only [unixNanos, nanosOfDays] at helapsed
    omega

theorem minusDays?_eq (hnow : now.IsUniversal) (hrange : now.inRange) :
    now.minusDays? days = if (now.earlier days).inRange then some (now.earlier days) else none := by
  have hlt := hnow.nanos_lt
  rw [minusDays?, earlier]
  by_cases hdays : days = 0
  · rw [if_pos hdays, if_pos hdays, if_pos hrange]
  · rw [if_neg hdays, if_neg hdays]
    by_cases hleap : 1000000000 ≤ now.nanos
    · have hquot : (now.nanos : Int) / 1000000000 = 1 := by omega
      have hrem : now.nanos % 1000000000 = now.nanos - 1000000000 := by omega
      rw [if_pos hleap, hquot, hrem]
    · have hquot : (now.nanos : Int) / 1000000000 = 0 := by omega
      have hrem : now.nanos % 1000000000 = now.nanos := by omega
      rw [if_neg hleap, hquot, hrem, Int.add_zero]

end Time.Instant

open Time

variable {now e : Instant} {days : Nat}

theorem cutoff_of_isDaysBefore (hnow : now.IsUniversal) (hrange : now.inRange)
    (he : e.IsDaysBefore days now) :
    cutoff days now = if e.inRange then .ok e.stamp else .error .beyondCalendar := by
  obtain rfl := Instant.isDaysBefore_iff.1 he
  rw [cutoff, Instant.minusDays?_eq hnow hrange]
  by_cases hreach : (now.earlier days).inRange
  · rw [if_pos hreach, if_pos hreach]
  · rw [if_neg hreach, if_neg hreach]

end Mailroom
