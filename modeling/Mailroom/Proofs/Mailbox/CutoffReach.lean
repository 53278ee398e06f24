/-
How far back a pruning can look.

The calendar begins in the year −262143. A number of days of 32 bits can lead far beyond it, and
nothing that admits a number of days keeps to the calendar: beyond it a report and a pruning both
come to nothing, and leave everything as it is.

* `Instant.reach` — the greatest number of days that the calendar has before an instant;
* `inRange_iff_le_reach` — up to it the calendar goes, and no further;
* `reach_bounds` — it is about 96 to 99 million days in the years from 1970 to 9999;
* `pruneReport_within_reach`, `prune_within_reach` — up to it no report and no pruning fails for
  the calendar;
* `result_prune_iff` — the same for a command to prune;
* `prune_as_far_as_the_calendar` — every admitted number of days, at any moment of these years;
* `cutoff_beyond_calendar` — the greatest admitted number leads too far.
-/
import Mailroom.CommandLine.Perform
import Mailroom.Proofs.CommandLine.AdmittedDays
import Mailroom.Proofs.Mailbox.PruneReport
import Mailroom.Proofs.Time.DaysBack

namespace Mailroom

namespace Time.Instant

/-- The greatest number of days that one can go back. -/
def reach (t : Instant) : Nat :=
  ((t.seconds + t.nanos / 1000000000 - firstSecond) / 86400).toNat

variable {now e : Instant} {days : Nat}

theorem inRange_iff_le_reach (hnow : now.IsUniversal) (hrange : now.inRange)
    (he : e.IsDaysBefore days now) : e.inRange ↔ days ≤ now.reach := by
  have hfirst := (inRange_iff.1 hrange).1
  have hlast := (inRange_iff.1 hrange).2
  have hle := he.seconds_le hnow
  rcases Nat.eq_zero_or_pos days with rfl | hdays
  · rw [he.of_zero rfl]
    exact iff_of_true hrange (Nat.zero_le _)
  · obtain rfl := isDaysBefore_iff.1 he
    rw [earlier, if_neg (by omega)] at *
    rw [inRange_iff, reach]
    simp only [] at *
    omega

theorem reach_bounds (hnow : now.IsUniversal) (hfirst : 1970 ≤ now.date.year)
    (hlast : now.date.year ≤ 9999) : 96465292 ≤ now.reach ∧ now.reach ≤ 99398189 := by
  have hseconds : 0 ≤ now.seconds := by
    by_contra hearly
    have hyear := year_le_of_seconds_le (a := now) (b := ⟨-1, 0⟩) (show now.seconds ≤ -1 by omega)
    have hbefore : (⟨-1, 0⟩ : Instant).date.year = 1969 := by decide
    omega
  have hend := seconds_lt_of_year_le hlast
  have hnanos := hnow.nanos_lt
  unfold reach firstSecond
  omega

end Time.Instant

open Time

variable {σ : Type} {s : Store} {days : Nat} {now e : Instant} {recorder : Recorder σ} {w : σ}

theorem cutoff_within_reach (hnow : now.IsUniversal) (hrange : now.inRange)
    (h : days ≤ now.reach) : cutoff days now = .ok (now.earlier days).stamp := by
  have he := Instant.isDaysBefore_earlier now days
  rw [cutoff_of_isDaysBefore hnow hrange he,
    if_pos ((Instant.inRange_iff_le_reach hnow hrange he).2 h)]

theorem cutoff_beyond_reach (hnow : now.IsUniversal) (hrange : now.inRange)
    (h : now.reach < days) : cutoff days now = .error .beyondCalendar := by
  have he := Instant.isDaysBefore_earlier now days
  have hout : ¬ (now.earlier days).inRange := fun hin =>
    Nat.not_le.2 h ((Instant.inRange_iff_le_reach hnow hrange he).1 hin)
  rw [cutoff_of_isDaysBefore hnow hrange he, if_neg hout]

/-! ### Within reach -/

theorem pruneReport_within_reach {c : String} (h : cutoff days now = .ok c) :
    s.pruneReport days now ≠ .error .beyondCalendar := by
  rw [Store.pruneReport, h]
  cases s.statistics <;> simp [bind, Except.bind, Except.mapError, pure, Except.pure]

theorem memorable_within_reach {c : String} (h : cutoff days now = .ok c) :
    s.memorable days now ≠ .error .beyondCalendar := by
  rw [Store.memorable, h]
  show ((s.prunableOfTypes c memorableTypes).mapError Error.storage >>= fun ms => .ok (c, ms)) ≠ _
  cases s.prunableOfTypes c memorableTypes <;> simp [bind, Except.bind, Except.mapError]

theorem prune_within_reach {c : String} (h : cutoff days now = .ok c) :
    (s.prune recorder days now w).1 ≠ .error .beyondCalendar := by
  rw [Store.prune]
  cases hmemorable : s.memorable days now with
  | error x =>
    intro hfailed
    rw [Except.error.inj hfailed] at hmemorable
    exact memorable_within_reach h hmemorable
  | ok x =>
    intro hfailed
    exact absurd hfailed (by simp)

/-! ### Beyond -/

theorem pruneReport_beyond (h : cutoff days now = .error .beyondCalendar) :
    s.pruneReport days now = .error .beyondCalendar := by
  rw [Store.pruneReport, h]
  rfl

theorem prune_beyond (h : cutoff days now = .error .beyondCalendar) :
    s.prune recorder days now w = (.error .beyondCalendar, s, w) := by
  rw [Store.prune, Store.memorable, h]
  rfl

/-! ### The command -/

section

variable {c : Config} {b : Mailbox Surroundings} {s : Store} {w : Surroundings}

theorem result_showPruning : (Command.showPruning b days s w).result =
    (s.pruneReport days w.clock).map fun _ => () := by
  rw [Command.showPruning]
  cases s.pruneReport days w.clock <;> rfl

theorem result_doPruning : (Command.doPruning c b days s w).result =
    (s.prune (recorderFor c.settings.memoryCommand) days w.clock w).1.map fun _ => () := by
  rw [Command.doPruning]
  rcases s.prune (recorderFor c.settings.memoryCommand) days w.clock w with ⟨x | x, s', w'⟩ <;> rfl

theorem map_eq_error_iff {α β : Type} {f : α → β} {x : Except Error α} {e : Error} :
    x.map f = .error e ↔ x = .error e := by
  cases x <;> simp [Except.map]

theorem result_pruning_within_reach {stamp : String} (h : cutoff days w.clock = .ok stamp)
    (force : Bool) : (Command.pruning c b force days s w).result ≠ .error .beyondCalendar := by
  have hshown : (Command.showPruning b days s w).result ≠ .error .beyondCalendar := by
    rw [result_showPruning, Ne, map_eq_error_iff]
    exact pruneReport_within_reach h
  have hdone : (Command.doPruning c b days s w).result ≠ .error .beyondCalendar := by
    rw [result_doPruning, Ne, map_eq_error_iff]
    exact prune_within_reach h
  unfold Command.pruning
  simp only []
  split
  · exact hshown
  · exact hshown
  · exact hdone

theorem result_pruning_beyond (h : cutoff days w.clock = .error .beyondCalendar) (force : Bool) :
    (Command.pruning c b force days s w).result = .error .beyondCalendar := by
  have hshown : (Command.showPruning b days s w).result = .error .beyondCalendar := by
    rw [result_showPruning, pruneReport_beyond h]
    rfl
  unfold Command.pruning
  simp only []
  split
  · exact hshown
  · rename_i hok
    exact absurd (hok.symm.trans hshown) (by simp)
  · rename_i hok
    exact absurd (hok.symm.trans hshown) (by simp)

/-- A command to prune fails for the calendar if and only if its number of days, or that of the
settings if it has none, is out of reach. -/
theorem result_prune_iff (hclock : w.clock.IsUniversal) (hrange : w.clock.inRange) (force : Bool)
    (given : Option Nat) :
    ((Command.prune force given).apply c b s w).result = .error .beyondCalendar ↔
      w.clock.reach < given.getD c.settings.pruneDays := by
  rcases Nat.lt_or_ge w.clock.reach (given.getD c.settings.pruneDays) with hlt | hle
  · exact iff_of_true (result_pruning_beyond (cutoff_beyond_reach hclock hrange hlt) force) hlt
  · exact iff_of_false (result_pruning_within_reach (cutoff_within_reach hclock hrange hle) force)
      (Nat.not_lt.2 hle)

end

/-! ### What is admitted and what is in reach -/

/-- Every number of days of 32 bits is admitted, by the settings every one but zero. The moment so
many days back is where the calendar still reaches, for about 96 million days at least; up to
there no report and no pruning fails for it. Beyond, which is for most of the numbers, all of them
fail and change nothing. -/
theorem prune_as_far_as_the_calendar {now : Instant} (hnow : now.IsUniversal)
    (hfirst : 1970 ≤ now.date.year) (hlast : now.date.year ≤ 9999) (days : Nat) :
    ((∃ cs, CommandLine.days? cs = some days) ↔ days ≤ Text.maxWord) ∧
    ((∃ home w c, Config.load home w = .ok c ∧ c.settings.pruneDays = days) ↔
      1 ≤ days ∧ days ≤ Text.maxWord) ∧
    96465292 ≤ now.reach ∧ now.reach ≤ 99398189 ∧
    ∃ e : Instant, e.IsDaysBefore days now ∧
      (days ≤ now.reach → cutoff days now = .ok e.stamp ∧
        ∀ s : Store, s.pruneReport days now ≠ .error .beyondCalendar ∧
          ∀ (σ : Type) (recorder : Recorder σ) (w : σ),
            (s.prune recorder days now w).1 ≠ .error .beyondCalendar) ∧
      (now.reach < days → cutoff days now = .error .beyondCalendar ∧
        ∀ s : Store, s.pruneReport days now = .error .beyondCalendar ∧
          ∀ (σ : Type) (recorder : Recorder σ) (w : σ),
            s.prune recorder days now w = (.error .beyondCalendar, s, w)) := by
  obtain ⟨hlow, hhigh⟩ := Instant.reach_bounds hnow hfirst hlast
  have hrange : now.inRange := Instant.inRange_of_hasShortYear ⟨by omega, hlast⟩
  refine ⟨exists_days?_iff, exists_load_iff, hlow, hhigh, now.earlier days,
    Instant.isDaysBefore_earlier now days, fun hle => ?_, fun hlt => ?_⟩
  · have hcutoff := cutoff_within_reach hnow hrange hle
    exact ⟨hcutoff, fun s => ⟨pruneReport_within_reach hcutoff,
      fun σ recorder w => prune_within_reach hcutoff⟩⟩
  · have hcutoff := cutoff_beyond_reach hnow hrange hlt
    exact ⟨hcutoff, fun s => ⟨pruneReport_beyond hcutoff,
      fun σ recorder w => prune_beyond hcutoff⟩⟩

/-- At the beginning of 2025 the calendar has 96485381 days behind it. -/
theorem prune_as_far_as_the_calendar_newYear2025 :
    newYear2025.IsUniversal ∧ newYear2025.date.year = 2025 ∧ newYear2025.reach = 96485381 ∧
      (∃ cs, CommandLine.days? cs = some 96485382) ∧
      cutoff 365 newYear2025 = .ok "2024-01-02T00:00:00.000Z" ∧
      cutoff 96485381 newYear2025 = .ok "-262143-01-01T00:00:00.000Z" ∧
      (decemberDesk.prune refuse 96485381 newYear2025 ()).1 ≠ .error .beyondCalendar ∧
      decemberDesk.prune refuse 96485382 newYear2025 () =
        (.error .beyondCalendar, decemberDesk, ()) := by
  have huniversal : newYear2025.IsUniversal := ⟨by decide, by decide⟩
  have hyear : newYear2025.date.year = 2025 := by decide
  have hreach : newYear2025.reach = 96485381 := by decide
  have hdays := fun days => prune_as_far_as_the_calendar huniversal (by omega) (by omega) days
  obtain ⟨-, -, -, -, lastYear, hlastYear, hshort, -⟩ := hdays 365
  obtain ⟨-, -, -, -, first, hfirst, hfar, -⟩ := hdays 96485381
  obtain ⟨hadmitted, -, -, -, -, -, -, hbeyond⟩ := hdays 96485382
  obtain rfl := Instant.isDaysBefore_iff.1 hlastYear
  obtain rfl := Instant.isDaysBefore_iff.1 hfirst
  refine ⟨huniversal, hyear, hreach, hadmitted.2 (by decide), ?_, ?_, ?_, ?_⟩
  · rw [(hshort (by omega)).1]
    decide +kernel
  · rw [(hfar (by omega)).1]
    decide +kernel
  · exact ((hfar (by omega)).2 decemberDesk).2 Unit refuse ()
  · exact ((hbeyond (by omega)).2 decemberDesk).2 Unit refuse ()

/-- The greatest number of days is admitted by the command line and by the settings, and leads
beyond the calendar. -/
theorem cutoff_beyond_calendar :
    CommandLine.days? "4294967295".toList = some 4294967295 ∧
      Config.load "home" (withPruneDays 4294967295) =
        .ok ⟨"home", { Settings.default with pruneDays := 4294967295 }⟩ ∧
      newYear2025.IsUniversal ∧ newYear2025.date.year = 2025 ∧
      cutoff 4294967295 newYear2025 = .error .beyondCalendar ∧
      Store.empty.pruneReport 4294967295 newYear2025 = .error .beyondCalendar ∧
      Store.empty.prune refuse 4294967295 newYear2025 () =
        (.error .beyondCalendar, Store.empty, ()) := by
  have hcutoff : cutoff 4294967295 newYear2025 = .error .beyondCalendar := by decide
  exact ⟨by decide, load_withPruneDays (by decide) (by decide), ⟨by decide, by decide⟩, by decide,
    hcutoff, pruneReport_beyond hcutoff, prune_beyond hcutoff⟩

end Mailroom
