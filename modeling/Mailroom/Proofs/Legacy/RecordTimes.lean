/-
The times of legacy messages.

A record states a local time. Its message has the stamp of that instant, in universal time, and in
the first hours of the year 0 and the last hours of 9999 the offset may lead out of the years whose
stamps have their form. Out of the year 0 this does no harm but beside cutoffs that lie earlier
still. Out of the year 9999 the message sorts before all others: it stands at the end of an inbox,
and counts as older than any cutoff although its time has not come.

* `Timestamp.FallsBefore`, `Timestamp.FallsAfter` — the stamps that leave these years;
* `year_neg_iff`, `year_long_iff` — they are the only ones, and lead no further than a year;
* `States`, `exists_states_of_parse` — the time that a record states, and the stamps of its message;
* `legacy_times_compare_unless_they_leave` — form, inbox order and cutoffs for every record;
* `future_record_is_prunable` — a record that counts as prunable before its time.
-/
import Mailroom.Proofs.Legacy.Layout
import Mailroom.Proofs.Mailbox.InboxOrder
import Mailroom.Proofs.Mailbox.PruneCourse
import Mailroom.Proofs.Time.Rfc3339Accepting
import Mailroom.Proofs.Time.StampForm

namespace Mailroom

/-! ### The instants of stamps -/

namespace Time

/-- The days of the years from 0 to 9999. Only the first and the last of them lie at their ends. -/
theorem dayNumber_bounds {d : Date} (hvalid : d.isValid = true) (hlow : 0 ≤ d.year)
    (hhigh : d.year ≤ 9999) :
    -719528 ≤ d.dayNumber ∧ (d.dayNumber < -719527 ↔ d = ⟨0, 1, 1⟩) ∧
      d.dayNumber ≤ 2932896 ∧ (2932895 < d.dayNumber ↔ d = ⟨9999, 12, 31⟩) := by
  obtain ⟨year, month, day⟩ := d
  simp only [Date.isValid, daysInMonth, Bool.and_eq_true, decide_eq_true_eq] at hvalid
  obtain ⟨⟨⟨hmonth, hmonth'⟩, hday⟩, hday'⟩ := hvalid
  have hday' : day ≤ 31 := by split_ifs at hday' <;> omega
  simp only [Date.dayNumber, Date.mk.injEq] at *
  split_ifs <;> omega

namespace Rfc3339.Timestamp

variable (t : Timestamp)

/-- The second of the day, as it is shown. A leap second goes on in the second before it. -/
def localSecond : Nat := t.hour * 3600 + t.minute * 60 + min t.second.val 59

theorem seconds_instant :
    t.instant.seconds = t.date.dayNumber * 86400 + t.localSecond - t.zone.ahead := rfl

theorem localSecond_lt : t.localSecond < 86400 := by
  have hhour := t.hour.isLt
  have hminute := t.minute.isLt
  unfold localSecond
  omega

theorem nanos_lt : t.nanos < 1000000000 := by
  have hdigits : ∀ c ∈ (t.fraction ++ List.replicate 9 '0').take 9, c.isDigit = true := by
    intro c hc
    rcases List.mem_append.1 (List.mem_of_mem_take hc) with hc | hc
    · exact t.isDigit c hc
    · rw [List.eq_of_mem_replicate hc]
      rfl
  have hlength : ((t.fraction ++ List.replicate 9 '0').take 9).length = 9 := by
    rw [List.length_take, List.length_append, List.length_replicate]
    omega
  have hlt := (Text.padded_ofDigitChars (List.length_pos_iff.1 (by omega)) hdigits).1
  rw [hlength] at hlt
  exact hlt

/-- No offset is as long as a day, and all are of whole minutes. -/
theorem ahead_bounds (z : Zone) : -86400 < z.ahead ∧ z.ahead < 86400 ∧ z.ahead % 60 = 0 := by
  cases z with
  | universal small => exact (by decide : -86400 < (0 : Int) ∧ (0 : Int) < 86400 ∧ (0 : Int) % 60 = 0)
  | offset sign hours minutes =>
    have hhours := hours.isLt
    have hminutes := minutes.isLt
    cases sign <;> simp only [Zone.ahead] <;> omega

theorem isUniversal_instant : t.instant.IsUniversal := by
  have hnanos := t.nanos_lt
  have hsecond : t.instant.nanos = if t.second = 60 then t.nanos + 1000000000 else t.nanos := rfl
  refine ⟨?_, fun hleap => ?_⟩
  · rw [hsecond]
    split_ifs <;> omega
  · have hsixty : t.second = 60 := by
      by_contra hother
      rw [hsecond, if_neg hother] at hleap
      omega
    have hahead := (ahead_bounds t.zone).2.2
    have hshown : t.localSecond % 60 = 59 := by
      rw [localSecond, hsixty]
      show (t.hour.val * 3600 + t.minute.val * 60 + 59) % 60 = 59
      omega
    rw [seconds_instant]
    omega

/-- A local time before the year 0 has begun: the offset is longer than its first day so far. -/
def FallsBefore : Prop := t.date = ⟨0, 1, 1⟩ ∧ (t.localSecond : Int) < t.zone.ahead

/-- A local time after the year 9999 has ended: the offset leads beyond its last day. -/
def FallsAfter : Prop := t.date = ⟨9999, 12, 31⟩ ∧ 86400 ≤ (t.localSecond : Int) - t.zone.ahead

instance : Decidable t.FallsBefore := inferInstanceAs (Decidable (_ ∧ _))

instance : Decidable t.FallsAfter := inferInstanceAs (Decidable (_ ∧ _))

theorem dayNumber_date : -719528 ≤ t.date.dayNumber ∧
    (t.date.dayNumber < -719527 ↔ t.date = ⟨0, 1, 1⟩) ∧ t.date.dayNumber ≤ 2932896 ∧
      (2932895 < t.date.dayNumber ↔ t.date = ⟨9999, 12, 31⟩) :=
  dayNumber_bounds t.isValid (Int.natCast_nonneg _) (by
    have hyear := t.year.isLt
    show (t.year : Int) ≤ 9999
    omega)

theorem year_neg_iff : t.instant.date.year < 0 ↔ t.FallsBefore := by
  have hsecond := t.localSecond_lt
  obtain ⟨hahead, hahead', -⟩ := ahead_bounds t.zone
  obtain ⟨hlow, hfirst, -⟩ := t.dayNumber_date
  rw [← Int.not_le, Instant.year_nonneg_iff, seconds_instant, FallsBefore, ← hfirst]
  omega

theorem year_long_iff : 9999 < t.instant.date.year ↔ t.FallsAfter := by
  have hsecond := t.localSecond_lt
  obtain ⟨hahead, hahead', -⟩ := ahead_bounds t.zone
  obtain ⟨-, -, hhigh, hlast⟩ := t.dayNumber_date
  rw [← Int.not_le, Instant.year_le_iff, seconds_instant, FallsAfter, ← hlast]
  omega

theorem hasShortYear_iff : t.instant.HasShortYear ↔ ¬ t.FallsBefore ∧ ¬ t.FallsAfter := by
  rw [← year_neg_iff, ← year_long_iff, Int.not_lt, Int.not_lt]
  rfl

theorem hasNearYear_instant : t.instant.HasNearYear := by
  have hsecond := t.localSecond_lt
  obtain ⟨hahead, hahead', -⟩ := ahead_bounds t.zone
  obtain ⟨hlow, -, hhigh, -⟩ := t.dayNumber_date
  have hseconds := t.seconds_instant
  have hbefore : (⟨-62167305600, 0⟩ : Instant).date.year = -1 := by decide
  have hafter : (⟨253402387199, 0⟩ : Instant).date.year = 10000 := by decide
  refine ⟨?_, ?_⟩
  · rw [← hbefore]
    exact Instant.year_le_of_seconds_le (show -62167305600 ≤ t.instant.seconds by omega)
  · rw [← hafter]
    exact Instant.year_le_of_seconds_le (show t.instant.seconds ≤ 253402387199 by omega)

end Rfc3339.Timestamp

/-- What comes after a moment does not come before an earlier one. -/
theorem Instant.not_before_of_isDaysBefore {days : Nat} {t now e : Instant}
    (hnow : now.IsUniversal) (he : e.IsDaysBefore days now) (h : now.Before t) :
    ¬ t.toMillis.Before e.toMillis := by
  have hle := he.seconds_le hnow
  have hnanos := hnow.nanos_lt
  have helapsed := he.elapsed
  show ¬ (t.seconds < e.seconds ∨ t.seconds = e.seconds ∧
    t.nanos / 1000000 * 1000000 < e.nanos / 1000000 * 1000000)
  rcases Nat.eq_zero_or_pos days with hdays | hdays
  · rw [he.of_zero hdays]
    unfold Before at h
    omega
  · simp only [unixNanos, nanosOfDays] at helapsed
    unfold Before at h
    omega

end Time

open Time Time.Rfc3339

namespace LegacyRecord

/-! ### Records -/

/-- The record states this time. -/
def States (content : String) (t : Timestamp) : Prop :=
  ∃ row payload f, LaidOut content row payload ∧ Fields.ofLine row = .ok f ∧ f.time = t.chars

variable {content : String} {archived : Bool} {m : Message}

/-- A record states a time, and all stamps of its message are the stamp of that instant. -/
theorem exists_states_of_parse (h : parse content archived = .ok m) :
    ∃ t : Timestamp, States content t ∧ m.createdAt = t.instant.stamp ∧
      m.readAt = (if m.status = .unread then none else some m.createdAt) ∧
      m.archivedAt = if m.status = .archived then some m.createdAt else none := by
  obtain ⟨row, payload, hlaid⟩ := exists_laidOut h
  rw [parse_of_laidOut hlaid] at h
  obtain ⟨f, hfields, hmessage⟩ := bind_eq_ok.1 h
  obtain ⟨-, time, status, type, priority, htime, -, -, -, rfl⟩ := message_eq_ok_iff.1 hmessage
  obtain ⟨t, hchars, rfl⟩ := parseChars_eq_ok_iff.1 htime
  exact ⟨t, ⟨row, payload, f, hlaid, hfields, hchars.symm⟩, rfl, rfl, rfl⟩

theorem isPrunable_row_iff {cutoff : String}
    (harchived : m.archivedAt = if m.status = .archived then some m.createdAt else none) :
    m.row.isPrunable cutoff ↔ m.status = .archived ∧ m.createdAt < cutoff := by
  rw [MessageRow.isPrunable, Bool.and_eq_true, has_row]
  refine and_congr_right fun hstatus => ?_
  show m.archivedAt.any (· < cutoff) = true ↔ _
  rw [harchived, if_pos hstatus, Option.any_some, decide_eq_true_eq]

theorem isArchivable_row_iff {cutoff : String}
    (hread : m.readAt = if m.status = .unread then none else some m.createdAt) :
    m.row.isArchivable cutoff ↔ m.status = .read ∧ m.createdAt < cutoff := by
  rw [MessageRow.isArchivable, Bool.and_eq_true, has_row, decide_eq_true_eq]
  refine and_congr_right fun hstatus => ?_
  show m.readAt.getD m.createdAt < cutoff ↔ _
  rw [hread, if_neg (by rw [hstatus]; decide), Option.getD_some]

/-- The message of a record has one stamp, that of the instant which the record states. It has the
form of stamps unless the instant lies outside of the years from 0 to 9999, which is so for the two
ends of these years only. Beside the stamp of any other record, and of any instant of these years,
it sorts by time unless one of them falls after them, and so it does in an inbox; a cutoff picks it
out if it comes before it, or falls after these years, or before them and the cutoff still earlier.
What is stamped after now counts as prunable or archivable if and only if it falls after them. -/
theorem legacy_times_compare_unless_they_leave (h : parse content archived = .ok m) :
    ∃ t : Timestamp, States content t ∧ m.createdAt = t.instant.stamp ∧
      m.readAt = (if m.status = .unread then none else some m.createdAt) ∧
      m.archivedAt = (if m.status = .archived then some m.createdAt else none) ∧
      (InStampForm m.createdAt ↔ ¬ t.FallsBefore ∧ ¬ t.FallsAfter) ∧
      (m.createdAt.length = 24 ↔ ¬ t.FallsBefore ∧ ¬ t.FallsAfter) ∧
      (∀ u : Instant, u.IsUniversal → u.HasShortYear ∨ (∃ t' : Timestamp, u = t'.instant) →
        (m.createdAt < u.stamp ↔ t.FallsAfter ∧ u.date.year ≤ 9999 ∨
          (t.FallsAfter ↔ 9999 < u.date.year) ∧ t.instant.toMillis.Before u.toMillis) ∧
        (u.stamp < m.createdAt ↔ 9999 < u.date.year ∧ ¬ t.FallsAfter ∨
          (9999 < u.date.year ↔ t.FallsAfter) ∧ u.toMillis.Before t.instant.toMillis) ∧
        ∀ n : Message, n.createdAt = u.stamp → n.priority = m.priority →
          ¬ t.FallsAfter → u.date.year ≤ 9999 →
          (m.StandsBefore n ↔ u.toMillis.Before t.instant.toMillis ∨
            m.createdAt = n.createdAt ∧ n.id < m.id) ∧
          (n.StandsBefore m ↔ t.instant.toMillis.Before u.toMillis ∨
            n.createdAt = m.createdAt ∧ m.id < n.id)) ∧
      ∀ (days : Nat) (now e : Instant), now.IsUniversal → now.HasShortYear →
        e.IsDaysBefore days now → e.inRange →
        cutoff days now = .ok e.stamp ∧
        (m.row.isPrunable e.stamp ↔ m.status = .archived ∧ m.createdAt < e.stamp) ∧
        (m.row.isArchivable e.stamp ↔ m.status = .read ∧ m.createdAt < e.stamp) ∧
        (m.createdAt < e.stamp ↔ t.instant.toMillis.Before e.toMillis ∨ t.FallsAfter ∨
          t.FallsBefore ∧ e.date.year < -1) ∧
        (now.Before t.instant → (m.createdAt < e.stamp ↔ t.FallsAfter)) := by
  obtain ⟨t, hstates, hcreated, hread, harchived⟩ := exists_states_of_parse h
  have ht := t.isUniversal_instant
  have hnear := t.hasNearYear_instant
  refine ⟨t, hstates, hcreated, hread, harchived, ?_, ?_, ?_, ?_⟩
  · rw [hcreated, Instant.inStampForm_stamp_iff ht, t.hasShortYear_iff]
  · rw [hcreated, Instant.length_stamp_iff ht, t.hasShortYear_iff]
  · intro u hu hyear
    have hunear : u.HasNearYear := by
      rcases hyear with ⟨hlow, hhigh⟩ | ⟨t', rfl⟩
      · exact ⟨by omega, by omega⟩
      · exact t'.hasNearYear_instant
    have hlt := Instant.stamp_lt_iff_of_near ht hu hnear hunear
    have hgt := Instant.stamp_lt_iff_of_near hu ht hunear hnear
    rw [t.year_long_iff, ← hcreated] at hlt
    rw [t.year_long_iff, ← Int.not_lt, t.year_long_iff, ← hcreated] at hgt
    refine ⟨hlt, hgt, fun n hn hpriority hafter hule => ?_⟩
    rw [Message.StandsBefore, Message.StandsBefore, hpriority, hn, hlt, hgt]
    simp only [Nat.lt_irrefl, hafter, Int.not_lt.2 hule, false_and, true_and, false_or, and_self]
  · intro days now e hnow hshort he hreach
    have hle : e.date.year ≤ 9999 :=
      Int.le_trans (Instant.year_le_of_seconds_le (he.seconds_le hnow)) hshort.2
    have hlt := Instant.stamp_lt_cutoff_iff ht (he.isUniversal hnow) hnear hle
    rw [t.year_long_iff, t.year_neg_iff, ← hcreated] at hlt
    refine ⟨?_, isPrunable_row_iff harchived, isArchivable_row_iff hread, hlt, fun hlater => ?_⟩
    · rw [cutoff_of_isDaysBefore hnow (Instant.inRange_of_hasShortYear hshort) he, if_pos hreach]
    · -- what comes after a year from 0 on does not lie before it
      have hnot := Instant.not_before_of_isDaysBefore hnow he hlater
      have hfalls : ¬ t.FallsBefore := by
        have hfirst := Instant.year_nonneg_iff.1 hshort.1
        rw [← t.year_neg_iff, Int.not_lt, Instant.year_nonneg_iff]
        unfold Instant.Before at hlater
        omega
      rw [hlt, or_iff_right hnot, or_iff_left fun hboth => hfalls hboth.1]

/-- A record of a message with this time. -/
def recordAt (time : String) : String :=
  "<!--TOON:message\x7bid,from,to,type,priority,convoy,timestamp,status\x7d:\n" ++
    "msg-1,agent-a,agent-b,request,normal,none," ++ time ++ ",read\n-->\nhello"

/-- The message of such a record. -/
def messageAt (stamp : String) (status : MessageStatus) : Message :=
  ⟨"msg-1", "agent-a", "agent-b", .request, .normal, noConvoy, "hello", status, stamp, some stamp,
    if status = .archived then some stamp else none⟩

/-- What happens in the leap second of the last hour is not archivable as the year 2025 begins. -/
theorem legacy_times_compare_unless_they_leave_lastHour :
    parse (recordAt "9999-12-31 23:59:60.9999−00:00") false =
        .ok (messageAt "9999-12-31T23:59:60.999Z" .read) ∧
      newYear2025.IsUniversal ∧ newYear2025.HasShortYear ∧
      newYear2025.IsDaysBefore 0 newYear2025 ∧ newYear2025.inRange ∧
      InStampForm "9999-12-31T23:59:60.999Z" ∧
      ¬ (messageAt "9999-12-31T23:59:60.999Z" .read).row.isArchivable newYear2025.stamp := by
  have hparse : parse (recordAt "9999-12-31 23:59:60.9999−00:00") false =
      .ok (messageAt "9999-12-31T23:59:60.999Z" .read) := by decide +kernel
  have hnow : newYear2025.IsUniversal := ⟨by decide, by decide⟩
  have hshort : newYear2025.HasShortYear := by
    unfold newYear2025 Instant.HasShortYear
    decide
  have hzero : newYear2025.IsDaysBefore 0 newYear2025 := Instant.isDaysBefore_iff.2 rfl
  obtain ⟨t, -, -, -, -, hform, hlength, hcompare, hcutoffs⟩ :=
    legacy_times_compare_unless_they_leave hparse
  have hstays := hlength.1 (by decide)
  have hlater : newYear2025.Before t.instant := by
    have hbefore := (hcompare newYear2025 hnow (.inl hshort)).2.1.1 (by decide +kernel)
    have hyear : ¬ 9999 < newYear2025.date.year := by decide
    simp only [hyear, false_and, false_or, false_iff] at hbefore
    have hmillis : 1735689600 < t.instant.seconds ∨ 1735689600 = t.instant.seconds ∧
      0 < t.instant.nanos / 1000000 * 1000000 := hbefore.2
    show 1735689600 < t.instant.seconds ∨ 1735689600 = t.instant.seconds ∧ 0 < t.instant.nanos
    omega
  obtain ⟨-, -, harchivable, -, hfuture⟩ :=
    hcutoffs 0 newYear2025 newYear2025 hnow hshort hzero (by decide)
  exact ⟨hparse, hnow, hshort, hzero, by decide, hform.2 hstays, fun hcounted =>
    hstays.2 ((hfuture hlater).1 (harchivable.1 hcounted).2)⟩

/-- Where it is an hour earlier, the year 10000 has begun by the last second of 9999. The stamp of
this second has a sign and 26 characters, and its message is prunable or archivable in 2025. -/
theorem future_record_is_prunable :
    parse (recordAt "9999-12-31T23:59:59-01:00") true =
        .ok (messageAt "+10000-01-01T00:59:59.000Z" .archived) ∧
      parse (recordAt "9999-12-31T23:59:59-01:00") false =
        .ok (messageAt "+10000-01-01T00:59:59.000Z" .read) ∧
      "+10000-01-01T00:59:59.000Z" = (⟨253402304399, 0⟩ : Instant).stamp ∧
      newYear2025.Before ⟨253402304399, 0⟩ ∧
      "+10000-01-01T00:59:59.000Z".length = 26 ∧ ¬ InStampForm "+10000-01-01T00:59:59.000Z" ∧
      (⟨[(messageAt "+10000-01-01T00:59:59.000Z" .archived).row], [], schemaVersion⟩ :
        Store).countPrunable newYear2025.stamp = 1 ∧
      (⟨[(messageAt "+10000-01-01T00:59:59.000Z" .read).row], [], schemaVersion⟩ :
        Store).countArchivable newYear2025.stamp = 1 := by
  have hlength : "+10000-01-01T00:59:59.000Z".length = 26 := by decide
  exact ⟨by decide +kernel, by decide +kernel, by decide +kernel, by decide, hlength,
    fun hform => absurd hform.length_eq (by omega), by decide +kernel, by decide +kernel⟩

end LegacyRecord

end Mailroom
