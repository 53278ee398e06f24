/-
Pruning with rows that stand for no message.

Rows of an old file may hold any texts. A pruning reads every row that it is going to delete before
it does anything else, so one of them that stands for no message makes it fail with nothing done;
all other rows are found by their texts and are never read. What becomes of such a row is decided
by the stamps alone, which is as it should be up to the year 9999. After that the stamp of the
moment begins with a sign and stands before the cutoff, and what has just been archived is deleted
in the same pass.

* `MessageRow.IsMalformed`, `isMalformed_iff` — a row that stands for no message;
* `exists_memorable_iff` — when what is to be remembered can be read;
* `pruneFate` — what a pruning makes of a row, whatever the stamps;
* `messages_archive_delete` — archiving and deleting make this of every row;
* `pruneFate_eq_kept_iff` — which rows that are not prunable it keeps;
* `prune_reads_before_it_acts` — when a pruning fails, and what it leaves;
* `archived_and_gone` — a row that is archived and deleted in one pass.
-/
import Mailroom.Proofs.Mailbox.PruneCourse

namespace Mailroom

variable {σ : Type}

/-! ### Rows that stand for no message -/

namespace MessageRow

/-- A row that stands for no message. -/
def IsMalformed (r : MessageRow) : Prop := ∀ m, r.toMessage ≠ .ok m

theorem not_isMalformed_iff {r : MessageRow} : ¬ r.IsMalformed ↔ ∃ m, r.toMessage = .ok m := by
  rw [IsMalformed, not_forall_not]

/-- It is for its type, its priority or its status that a row stands for no message. -/
theorem isMalformed_iff {r : MessageRow} : r.IsMalformed ↔ MessageType.ofName? r.type = none ∨
    Priority.ofName? r.priority = none ∨ MessageStatus.ofName? r.status = none := by
  rw [← not_iff_not, not_isMalformed_iff, not_or, not_or]
  simp only [← ne_eq, Option.ne_none_iff_exists']
  constructor
  · rintro ⟨m, hm⟩
    rw [← toMessage_eq_ok_iff.1 hm]
    exact ⟨⟨_, MessageType.ofName?_name m.type⟩, ⟨_, Priority.ofName?_name m.priority⟩,
      ⟨_, MessageStatus.ofName?_name m.status⟩⟩
  · rintro ⟨⟨type, htype⟩, ⟨priority, hpriority⟩, ⟨status, hstatus⟩⟩
    refine ⟨⟨r.id, r.sender, r.recipient, type, priority, r.convoy, r.payload, status, r.createdAt,
      r.readAt, r.archivedAt⟩, toMessage_eq_ok_iff.2 ?_⟩
    rw [Message.row, MessageType.name_of_ofName? htype, Priority.name_of_ofName? hpriority,
      MessageStatus.name_of_ofName? hstatus]

theorem isPrunable_iff {cutoff : String} {r : MessageRow} : r.isPrunable cutoff = true ↔
    r.status = MessageStatus.archived.name ∧ ∃ time, r.archivedAt = some time ∧ time < cutoff := by
  rw [isPrunable, Bool.and_eq_true, has, beq_iff_eq, Option.any_eq_true]
  simp only [decide_eq_true_eq]

end MessageRow

/-! ### Reading before acting -/

theorem exists_prunableOfTypes_iff {s : Store} {cutoff : String} {types : List MessageType} :
    (∃ ms, s.prunableOfTypes cutoff types = .ok ms) ↔
      ∀ r ∈ s.messages, r.isPrunable cutoff = true → ¬ r.IsMalformed := by
  have hrows : (∃ ms, s.prunableOfTypes cutoff types = .ok ms) ↔
      ∃ all, (s.prunableRows cutoff).mapM MessageRow.toMessage = .ok all := by
    simp only [Store.prunableOfTypes, bind_eq_ok, pure_eq_ok]
    constructor
    · rintro ⟨_, all, hall, -⟩
      exact ⟨all, hall⟩
    · rintro ⟨all, hall⟩
      exact ⟨_, all, hall, rfl⟩
  rw [hrows, exists_mapM_eq_ok]
  simp only [(Store.perm_prunableRows s cutoff).mem_iff, List.mem_filter, and_imp,
    MessageRow.not_isMalformed_iff]

variable {s : Store} {days : Nat} {now e : Time.Instant}

theorem memorable_of_minusDays? (he : now.minusDays? days = some e) :
    s.memorable days now =
      ((s.prunableOfTypes e.stamp memorableTypes).mapError Error.storage).map (e.stamp, ·) := by
  rw [Store.memorable, cutoff, he]
  rfl

theorem exists_memorable_iff (he : now.minusDays? days = some e) :
    (∃ calls, s.memorable days now = .ok (e.stamp, calls)) ↔
      ∀ r ∈ s.messages, r.isPrunable e.stamp = true → ¬ r.IsMalformed := by
  rw [← @exists_prunableOfTypes_iff s e.stamp memorableTypes, memorable_of_minusDays? he]
  cases s.prunableOfTypes e.stamp memorableTypes with
  | error fault => exact ⟨nofun, nofun⟩
  | ok ms => exact ⟨fun _ => ⟨ms, rfl⟩, fun _ => ⟨ms, rfl⟩⟩

/-! ### What becomes of a row -/

/-- The row as a pruning leaves it if it does not delete it: archived if it was read long ago. -/
def MessageRow.keptBy (cutoff time : String) (r : MessageRow) : MessageRow :=
  if r.isArchivable cutoff then
    { r with status := MessageStatus.archived.name, archivedAt := some time }
  else r

/-- What a pruning makes of a row, whatever the stamps. A row that it archives is deleted in the
same pass if the stamp of its moment stands before the cutoff. -/
def pruneFate (cutoff time : String) (r : MessageRow) : Option MessageRow :=
  if r.isPrunable cutoff = true ∨ (r.isArchivable cutoff = true ∧ time < cutoff) then none
  else some (r.keptBy cutoff time)

section

variable {cutoff time : String} {r : MessageRow}

theorem isPrunable_keptBy : (r.keptBy cutoff time).isPrunable cutoff = true ↔
    r.isPrunable cutoff = true ∨ (r.isArchivable cutoff = true ∧ time < cutoff) := by
  unfold MessageRow.keptBy
  by_cases harchivable : r.isArchivable cutoff = true
  · -- a row that was read is not prunable, so its new stamp decides
    have hprunable := not_isPrunable_of_isArchivable harchivable
    rw [if_pos harchivable, MessageRow.isPrunable_iff, hprunable, harchivable]
    simp
  · rw [if_neg harchivable]
    simp [harchivable]

theorem guard_keptBy :
    Option.guard (fun r => !MessageRow.isPrunable cutoff r) (r.keptBy cutoff time) =
      pruneFate cutoff time r := by
  rw [Option.guard, pruneFate]
  by_cases h : (r.keptBy cutoff time).isPrunable cutoff = true
  · rw [if_pos (isPrunable_keptBy.1 h), h]
    rfl
  · rw [if_neg (mt isPrunable_keptBy.2 h), Bool.eq_false_iff.2 h]
    rfl

/-- A row that is not prunable is kept, unless it is archived with a stamp before the cutoff. -/
theorem pruneFate_eq_kept_iff (h : r.isPrunable cutoff = false) :
    pruneFate cutoff time r = some (r.keptBy cutoff time) ↔
      ¬ (r.isArchivable cutoff = true ∧ time < cutoff) := by
  rw [pruneFate, h]
  simp

end

theorem messages_archive_delete (s : Store) (cutoff time : String) :
    ((s.archiveReadBefore cutoff time).1.deleteArchivedBefore cutoff).1.messages =
      s.messages.filterMap (pruneFate cutoff time) := by
  show (s.messages.map (MessageRow.keptBy cutoff time)).filter _ = _
  rw [← List.filterMap_eq_filter, List.filterMap_map]
  exact List.filterMap_congr fun r _ => guard_keptBy

/-! ### Success and failure -/

theorem prune_of_memorable_error {fault : Error} (h : s.memorable days now = .error fault)
    (recorder : Recorder σ) (w : σ) : s.prune recorder days now w = (.error fault, s, w) := by
  rw [Store.prune, h]

theorem memorable_eq_ok (he : now.minusDays? days = some e) {cutoff : String}
    {calls : List Message} (h : s.memorable days now = .ok (cutoff, calls)) : cutoff = e.stamp := by
  rw [memorable_of_minusDays? he] at h
  cases hread : s.prunableOfTypes e.stamp memorableTypes with
  | error fault =>
    rw [hread] at h
    exact absurd h nofun
  | ok ms =>
    rw [hread] at h
    exact (Prod.mk.inj (Except.ok.inj h)).1.symm

/-- A pruning fails if and only if what it is to remember cannot be read. -/
theorem prune_eq_error_iff (he : now.minusDays? days = some e) (recorder : Recorder σ) (w : σ) :
    (∃ fault, (s.prune recorder days now w).1 = .error fault) ↔
      ∃ r ∈ s.messages, r.isPrunable e.stamp = true ∧ r.IsMalformed := by
  have hread : (∃ fault, (s.prune recorder days now w).1 = .error fault) ↔
      ¬ ∃ calls, s.memorable days now = .ok (e.stamp, calls) := by
    cases hmemorable : s.memorable days now with
    | error fault =>
      rw [prune_of_memorable_error hmemorable]
      exact ⟨fun _ => nofun, fun _ => ⟨fault, rfl⟩⟩
    | ok found =>
      obtain ⟨cutoff, calls⟩ := found
      obtain rfl := memorable_eq_ok he hmemorable
      rw [prune_eq_whole hmemorable]
      exact ⟨nofun, fun hnone => absurd ⟨calls, rfl⟩ hnone⟩
  rw [hread, exists_memorable_iff he]
  simp only [not_forall, not_not, exists_prop]

/-- A pruning that fails has failed before it did anything. -/
theorem memorable_of_prune_error {recorder : Recorder σ} {w : σ} {fault : Error}
    (h : (s.prune recorder days now w).1 = .error fault) : s.memorable days now = .error fault := by
  cases hmemorable : s.memorable days now with
  | error fault' =>
    rw [prune_of_memorable_error hmemorable] at h
    rw [Except.error.inj h]
  | ok found =>
    rw [prune_eq_whole hmemorable] at h
    exact absurd h nofun

theorem store_prune_of_ok (he : now.minusDays? days = some e) {recorder : Recorder σ} {w : σ}
    {outcome : PruneOutcome} (h : (s.prune recorder days now w).1 = .ok outcome) :
    (s.prune recorder days now w).2.1 =
      ((s.archiveReadBefore e.stamp now.stamp).1.deleteArchivedBefore e.stamp).1 := by
  cases hmemorable : s.memorable days now with
  | error fault =>
    rw [prune_of_memorable_error hmemorable] at h
    exact absurd h nofun
  | ok found =>
    obtain ⟨cutoff, calls⟩ := found
    obtain rfl := memorable_eq_ok he hmemorable
    rw [prune_eq_whole hmemorable, Pruning.whole_eq]

/-- A pruning reads all rows that it is going to delete before it does anything. It fails if and
only if one of them stands for no message, and then nothing is changed and the memory is not asked.
If it succeeds, what becomes of a row depends on its texts only: no row that is not prunable is
changed but by being archived, as long as the stamp of the moment does not stand before the
cutoff. -/
theorem prune_reads_before_it_acts (he : now.minusDays? days = some e) (recorder : Recorder σ)
    (w : σ) :
    ((∃ fault, (s.prune recorder days now w).1 = .error fault) ↔
      ∃ r ∈ s.messages, (r.status = MessageStatus.archived.name ∧
        ∃ time, r.archivedAt = some time ∧ time < e.stamp) ∧ r.IsMalformed) ∧
    (∀ fault, (s.prune recorder days now w).1 = .error fault →
      (s.prune recorder days now w).2 = (s, w) ∧
        (s.prune recorder.noting days now (w, [])).2 = (s, w, [])) ∧
    (∀ outcome, (s.prune recorder days now w).1 = .ok outcome →
      (s.prune recorder days now w).2.1 =
        { s with messages := s.messages.filterMap (pruneFate e.stamp now.stamp) }) ∧
    (∀ r ∈ s.messages, r.isPrunable e.stamp = false →
      (pruneFate e.stamp now.stamp r = some (r.keptBy e.stamp now.stamp) ↔
        ¬ (r.isArchivable e.stamp = true ∧ now.stamp < e.stamp))) ∧
    (now.HasShortYear → ¬ now.stamp < e.stamp) := by
  refine ⟨?_, fun fault hfault => ?_, fun outcome hok => ?_, fun r _ => pruneFate_eq_kept_iff,
    fun hnow => not_stamp_lt_cutoff hnow (by rw [cutoff, he])⟩
  · simp only [prune_eq_error_iff he, MessageRow.isPrunable_iff]
  · have hmemorable := memorable_of_prune_error hfault
    rw [prune_of_memorable_error hmemorable, prune_of_memorable_error hmemorable]
    exact ⟨rfl, rfl⟩
  · rw [store_prune_of_ok he hok, ← messages_archive_delete]
    rfl

/-- A discovery that was archived in November, of a priority that there is not, and a row of no
type that is to be archived. -/
def looseDesk : Store where
  messages := [
    ⟨"m1", "a", "b", "discovery", "urgent", "none", "hi", "archived", "2024-11-01T00:00:00.000Z",
      none, some "2024-11-03T00:00:00.000Z"⟩,
    ⟨"m2", "a", "b", "memo", "normal", "none", "hi", "read", "2024-11-01T00:00:00.000Z", none,
      none⟩]
  roster := []
  version := schemaVersion

theorem prune_reads_before_it_acts_looseDesk :
    newYear2025.minusDays? 0 = some newYear2025 ∧
      (∃ fault, (looseDesk.prune refuse 0 newYear2025 ()).1 = .error fault) ∧
      (looseDesk.prune refuse 0 newYear2025 ()).2 = (looseDesk, ()) ∧
      (looseDesk.prune refuse.noting 0 newYear2025 ((), [])).2 = (looseDesk, (), []) ∧
      ¬ newYear2025.stamp < newYear2025.stamp := by
  have he : newYear2025.minusDays? 0 = some newYear2025 := by decide
  obtain ⟨hfails, hnothing, -, -, hstamp⟩ :=
    prune_reads_before_it_acts (s := looseDesk) he refuse ()
  have hshort : newYear2025.HasShortYear := by
    unfold newYear2025 Time.Instant.HasShortYear
    decide
  obtain ⟨fault, hfault⟩ := hfails.2 ⟨_, List.mem_cons_self,
    ⟨rfl, "2024-11-03T00:00:00.000Z", rfl, by decide⟩, MessageRow.isMalformed_iff.2 (by decide)⟩
  exact ⟨he, ⟨fault, hfault⟩, (hnothing fault hfault).1, (hnothing fault hfault).2, hstamp hshort⟩

/-- An hour after the year 9999. -/
def afterYear9999 : Time.Instant := ⟨253402304399, 0⟩

/-- A row of no type that was read long ago. -/
def memoDesk : Store where
  messages := [⟨"m1", "a", "b", "memo", "normal", "none", "hi", "read", "2024-01-01T00:00:00.000Z",
    some "2024-01-02T00:00:00.000Z", none⟩]
  roster := []
  version := schemaVersion

/-- After the year 9999, a row that is not prunable is archived and deleted in one pass. -/
theorem archived_and_gone :
    (∀ r ∈ memoDesk.messages, r.IsMalformed ∧ r.isPrunable "9999-12-25T00:59:59.000Z" = false) ∧
      cutoff 7 afterYear9999 = .ok "9999-12-25T00:59:59.000Z" ∧
      afterYear9999.stamp = "+10000-01-01T00:59:59.000Z" ∧
      memoDesk.prune forget 7 afterYear9999 () =
        (.ok ⟨0, 0, 1, 1⟩, { memoDesk with messages := [] }, ()) := by
  refine ⟨?_, by decide +kernel, by decide +kernel, by decide +kernel⟩
  intro r hr
  obtain rfl := List.mem_singleton.1 hr
  exact ⟨MessageRow.isMalformed_iff.2 (by decide), by decide⟩

end Mailroom
