/-
A pruning does what its report said, and once.

The report counts the rows that a pruning is going to change, and the pruning changes these
rows. What it leaves is settled: no row of it is prunable, and none archivable, by the same
cutoff.  So the next report is empty and the next pruning finds nothing to do.

* `MessageRow.IsSettled` — a row that a pruning leaves as it is;
* `isSettled_of_pruneTurn` — so is every row that a pruning leaves;
* `exists_prune` — a pruning of rows that stand for messages, with its counts;
* `prune_as_reported` — a report, a pruning, and both of them again.
-/
import Mailroom.Proofs.Mailbox.Histories
import Mailroom.Proofs.Mailbox.PruneCourse
import Mailroom.Proofs.Store.Counters

namespace Mailroom

variable {σ : Type}

/-! ### Settled rows -/

/-- A row that a pruning with this cutoff neither deletes nor archives. -/
def MessageRow.IsSettled (cutoff : String) (r : MessageRow) : Prop :=
  r.isPrunable cutoff = false ∧ r.isArchivable cutoff = false

section

variable {s s' : Store} {cutoff time : String} {r r' : MessageRow}

theorem pruneTurn_of_isSettled (h : r.IsSettled cutoff) : pruneTurn cutoff time r = some r := by
  rw [pruneTurn, h.1, h.2]
  rfl

theorem isSettled_of_pruneTurn (hle : ¬ time < cutoff) (h : pruneTurn cutoff time r = some r') :
    r'.IsSettled cutoff := by
  rw [pruneTurn] at h
  by_cases hprunable : r.isPrunable cutoff
  · rw [if_pos hprunable] at h
    exact absurd h (by simp)
  · rw [if_neg hprunable] at h
    obtain rfl := Option.some.inj h
    refine ⟨?_, ?_⟩
    · rw [isPrunable_archived hle]
      simpa using hprunable
    · -- what has just been archived is not a read message any more
      by_cases harch : r.isArchivable cutoff
      · rw [if_pos harch]
        rfl
      · rw [if_neg harch]
        simpa using harch

theorem exists_toMessage_of_pruneTurn (h : pruneTurn cutoff time r = some r')
    (hr : ∃ m, r.toMessage = .ok m) : ∃ m, r'.toMessage = .ok m := by
  obtain ⟨m, hm⟩ := hr
  obtain rfl := toMessage_eq_ok_iff.1 hm
  rw [pruneTurn] at h
  split at h
  · exact absurd h (by simp)
  · obtain rfl := Option.some.inj h
    split
    · exact ⟨m.archivedNow time, toMessage_row (m.archivedNow time)⟩
    · exact ⟨m, hm⟩

namespace Store.PrunedTo

theorem isSettled (h : s.PrunedTo cutoff time s') (hle : ¬ time < cutoff) :
    ∀ r ∈ s'.messages, r.IsSettled cutoff := by
  intro r' hr'
  rw [h.messages] at hr'
  obtain ⟨r, -, hturn⟩ := List.mem_filterMap.1 hr'
  exact isSettled_of_pruneTurn hle hturn

theorem exists_toMessage (h : s.PrunedTo cutoff time s')
    (hrows : ∀ r ∈ s.messages, ∃ m, r.toMessage = .ok m) :
    ∀ r ∈ s'.messages, ∃ m, r.toMessage = .ok m := by
  intro r' hr'
  rw [h.messages] at hr'
  obtain ⟨r, hr, hturn⟩ := List.mem_filterMap.1 hr'
  exact exists_toMessage_of_pruneTurn hturn (hrows r hr)

/-- A store whose rows are all settled is left as it is. -/
theorem eq_self (h : s.PrunedTo cutoff time s')
    (hsettled : ∀ r ∈ s.messages, r.IsSettled cutoff) : s' = s := by
  have hmessages : s'.messages = s.messages := by
    rw [h.messages, List.filterMap_congr fun r hr => pruneTurn_of_isSettled (hsettled r hr)]
    exact List.filterMap_some
  cases s'
  cases s
  obtain rfl := hmessages
  obtain rfl := h.roster
  obtain rfl := h.version
  rfl

end Store.PrunedTo

theorem countPrunable_eq_zero (h : ∀ r ∈ s.messages, r.IsSettled cutoff) :
    s.countPrunable cutoff = 0 :=
  List.countP_eq_zero.2 fun r hr => by simp [(h r hr).1]

theorem countArchivable_eq_zero (h : ∀ r ∈ s.messages, r.IsSettled cutoff) :
    s.countArchivable cutoff = 0 :=
  List.countP_eq_zero.2 fun r hr => by simp [(h r hr).2]

theorem Store.HandsOver.eq_nil {calls : List Message} (h : s.HandsOver cutoff calls)
    (hsettled : ∀ r ∈ s.messages, r.IsSettled cutoff) : calls = [] := by
  have hnone : (s.messages.filter fun r => r.isPrunable cutoff &&
      (r.type == MessageType.discovery.name || r.type == MessageType.statusReport.name)) = [] := by
    refine List.filter_eq_nil_iff.2 fun r hr => ?_
    rw [(hsettled r hr).1, Bool.false_and]
    exact Bool.false_ne_true
  have hrows := h.rows
  rw [hnone] at hrows
  exact List.map_eq_nil_iff.1 hrows.eq_nil

end

/-! ### Reports and prunings -/

variable {s : Store} {days : Nat} {now e : Time.Instant}

theorem exists_pruneReport (hrows : ∀ r ∈ s.messages, ∃ m, r.toMessage = .ok m)
    (he : now.minusDays? days = some e) :
    ∃ report, s.pruneReport days now = .ok report ∧ report.prunable = s.countPrunable e.stamp ∧
      report.archivable = s.countArchivable e.stamp := by
  obtain ⟨x, hx, -⟩ := exists_statistics hrows
  refine ⟨⟨days, e.stamp, x, s.countPrunable e.stamp, s.countArchivable e.stamp⟩, ?_, rfl, rfl⟩
  simp only [Store.pruneReport, bind_eq_ok, pure_eq_ok, mapError_eq_ok]
  exact ⟨e.stamp, by rw [cutoff, he], x, hx, rfl⟩

/-- A pruning of rows that stand for messages succeeds, and deletes and archives as many rows
as are prunable and archivable before it. -/
theorem exists_prune (hrows : ∀ r ∈ s.messages, ∃ m, r.toMessage = .ok m)
    (hnow : now.HasShortYear) (he : now.minusDays? days = some e) :
    ∃ s' calls, s.PrunedTo e.stamp now.stamp s' ∧ s.HandsOver e.stamp calls ∧
      ∀ (σ : Type) (recorder : Recorder σ) (w : σ), s.prune recorder days now w =
        (.ok ⟨(rememberAll recorder calls w).1.1, (rememberAll recorder calls w).1.2,
          s.countArchivable e.stamp, s.countPrunable e.stamp⟩, s',
          (rememberAll recorder calls w).2) := by
  have hle : ¬ now.stamp < e.stamp := not_stamp_lt_cutoff hnow (by rw [cutoff, he])
  obtain ⟨calls, hmemorable, hhands⟩ := exists_memorable hrows he
  refine ⟨_, calls, prunedTo s hle, hhands, fun σ recorder w => ?_⟩
  have hdeleted : ((s.archiveReadBefore e.stamp now.stamp).1.deleteArchivedBefore e.stamp).2 =
      s.countPrunable e.stamp :=
    (Store.snd_deleteArchivedBefore _ _).trans (Store.countPrunable_archiveReadBefore hle)
  rw [prune_eq_whole hmemorable, Pruning.whole_eq, hdeleted]
  rfl

/-- A report changes nothing and says how many rows the next pruning deletes and archives. After
that pruning nothing is left to report, and a second pruning does nothing and asks no memory. -/
theorem prune_as_reported (hrows : ∀ r ∈ s.messages, ∃ m, r.toMessage = .ok m)
    (hnow : now.HasShortYear) (he : now.minusDays? days = some e) :
    ∃ report report' s', s.pruneReport days now = .ok report ∧
      (∀ σ : Type, (Operation.pruneReport days now : Operation σ).perform s = s) ∧
      (∀ (σ : Type) (recorder : Recorder σ) (w : σ), ∃ outcome w',
        s.prune recorder days now w = (.ok outcome, s', w') ∧
        outcome.deleted = report.prunable ∧ outcome.archived = report.archivable) ∧
      s'.pruneReport days now = .ok report' ∧ report'.prunable = 0 ∧ report'.archivable = 0 ∧
      ∀ (σ : Type) (recorder : Recorder σ) (w : σ),
        s'.prune recorder days now w = (.ok ⟨0, 0, 0, 0⟩, s', w) ∧
        s'.prune recorder.noting days now (w, []) = (.ok ⟨0, 0, 0, 0⟩, s', w, []) := by
  obtain ⟨report, hreport, hprunable, harchivable⟩ := exists_pruneReport hrows he
  obtain ⟨s', calls, hpruned, -, hprune⟩ := exists_prune hrows hnow he
  have hle : ¬ now.stamp < e.stamp := not_stamp_lt_cutoff hnow (by rw [cutoff, he])
  have hsettled := hpruned.isSettled hle
  have hrows' := hpruned.exists_toMessage hrows
  obtain ⟨report', hreport', hprunable', harchivable'⟩ := exists_pruneReport hrows' he
  refine ⟨report, report', s', hreport, fun _ => rfl, fun σ recorder w => ?_, hreport', ?_, ?_, ?_⟩
  · exact ⟨_, _, hprune σ recorder w, hprunable.symm, harchivable.symm⟩
  · rw [hprunable', countPrunable_eq_zero hsettled]
  · rw [harchivable', countArchivable_eq_zero hsettled]
  · -- the second pruning finds settled rows only, so it has no call to make and no row to change
    obtain ⟨s'', calls', hpruned', hhands', hprune'⟩ := exists_prune hrows' hnow he
    obtain rfl := hpruned'.eq_self hsettled
    obtain rfl := hhands'.eq_nil hsettled
    rw [countPrunable_eq_zero hsettled, countArchivable_eq_zero hsettled] at hprune'
    exact fun σ recorder w => ⟨hprune' σ recorder w, hprune' _ recorder.noting (w, [])⟩

/-- Of the desk of December, one message is deleted and one is archived; then nothing is left
to do, with a threshold of no days at all. -/
theorem prune_as_reported_decemberDesk :
    (∀ r ∈ decemberDesk.messages, ∃ m, r.toMessage = .ok m) ∧ newYear2025.HasShortYear ∧
      newYear2025.minusDays? 0 = some newYear2025 ∧
      ∃ report s' outcome, decemberDesk.pruneReport 0 newYear2025 = .ok report ∧
        report.prunable = 1 ∧ report.archivable = 1 ∧
        decemberDesk.prune refuse 0 newYear2025 () = (.ok outcome, s', ()) ∧
        outcome.deleted = 1 ∧ outcome.archived = 1 ∧
        s'.prune refuse 0 newYear2025 () = (.ok ⟨0, 0, 0, 0⟩, s', ()) := by
  have hrows : ∀ r ∈ decemberDesk.messages, ∃ m, r.toMessage = .ok m := by
    simp only [decemberDesk, List.forall_mem_cons, toMessage_row]
    simp
  have hnow : newYear2025.HasShortYear := by
    unfold newYear2025 Time.Instant.HasShortYear
    decide
  have he : newYear2025.minusDays? 0 = some newYear2025 := by decide
  obtain ⟨report, report', s', hreport, -, hprune, -, -, -, hagain⟩ :=
    prune_as_reported hrows hnow he
  obtain ⟨outcome, w', hfirst, hdeleted, harchived⟩ := hprune Unit refuse ()
  obtain ⟨counted, hcounted, hprunable, harchivable⟩ := exists_pruneReport hrows he
  obtain rfl := Except.ok.inj (hreport.symm.trans hcounted)
  have hone : decemberDesk.countPrunable newYear2025.stamp = 1 := by decide +kernel
  have hone' : decemberDesk.countArchivable newYear2025.stamp = 1 := by decide +kernel
  rw [hone] at hprunable
  rw [hone'] at harchivable
  exact ⟨hrows, hnow, he, report, s', outcome, hreport, hprunable, harchivable, hfirst,
    hdeleted.trans hprunable, harchived.trans harchivable, (hagain Unit refuse ()).1⟩

end Mailroom
