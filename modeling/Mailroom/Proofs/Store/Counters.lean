/-
The numbers that describe a store.

A store is counted by status, by type, from end to end of its times, and by how far its messages
have come towards being deleted. Each number comes from a question of its own. If every status is
known the answers fit together: they are numbers of the same rows.

* `Statistics.Describes` — numbers that are right about some rows;
* `exists_statistics` — when a store can be counted, and that its numbers are right;
* `length_eq_counts` — every row has one of the three statuses;
* `Store.countPrunable_eq`, `Store.countArchivable_eq` — which rows a cutoff picks out;
* `isPrunable_mono`, `isArchivable_mono` — a later cutoff picks out more;
* `counters_agree` — all the numbers of a store together.
-/
import Mailroom.Proofs.Store.Tally
import Mailroom.Store.Retention

namespace Mailroom

/-- Whether statistics are right about some rows. -/
structure Statistics.Describes (x : Statistics) (rows : List MessageRow) : Prop where
  /-- every row is counted -/
  total : x.total = rows.length
  /-- and again under its status -/
  count : ∀ status, x.count status = rows.countP (·.has status)
  /-- the types that occur are named in order -/
  types : (x.byType.map (·.1)).Pairwise (· < ·)
  /-- each with the number of its rows, and no other type is named -/
  byType : ∀ type n, (type, n) ∈ x.byType ↔
    type ∈ rows.map (·.type) ∧ n = rows.countP (·.type == type)
  /-- so that every row is counted once more under its type -/
  sum_byType : (x.byType.map (·.2)).sum = rows.length
  /-- the times are those of the first row and the last one to be written -/
  oldest : ∀ t, x.oldest = some t ↔ IsLeast {u | u ∈ rows.map (·.createdAt)} t
  newest : ∀ t, x.newest = some t ↔ IsGreatest {u | u ∈ rows.map (·.createdAt)} t
  /-- and are missing if there are no rows -/
  oldest_none : x.oldest = none ↔ rows = []
  newest_none : x.newest = none ↔ rows = []

/-! ### Counting rows -/

theorem count_texts (text : MessageRow → String) (rows : List MessageRow)
    (t : String) : (rows.map text).count t = rows.countP (text · == t) := by
  rw [List.count, List.countP_map]
  rfl

/-- The statistics of a store count what they name, whatever else its rows say. -/
theorem exists_statistics {s : Store} (hrows : ∀ r ∈ s.messages, ∃ m, r.toMessage = .ok m) :
    ∃ x, s.statistics = .ok x ∧ x.Describes s.messages := by
  have hnames : ∀ e ∈ tally (s.messages.map (·.status)),
      ∃ status : MessageStatus, status.name = e.1 := by
    rintro ⟨text, n⟩ he
    obtain ⟨r, hr, rfl⟩ := List.mem_map.1 (mem_tally_iff.1 he).1
    obtain ⟨m, hm⟩ := hrows r hr
    exact ⟨m.status, by rw [← toMessage_eq_ok_iff.1 hm]; rfl⟩
  obtain ⟨x, hx, htotal, hcount, hbyType, holdest, hnewest⟩ :=
    exists_foldlM_countStatus hnames (pairwise_tally.imp ne_of_lt)
      ⟨0, 0, 0, 0, tally (s.messages.map (·.type)), least? (s.messages.map (·.createdAt)),
        greatest? (s.messages.map (·.createdAt))⟩
  refine ⟨x, hx, ?_, fun status => ?_, ?_, fun type n => ?_, ?_, fun t => ?_, fun t => ?_, ?_, ?_⟩
  · rw [htotal, sum_tally, List.length_map]
    exact Nat.zero_add _
  · have hzero : (Statistics.count ⟨0, 0, 0, 0, tally (s.messages.map (·.type)),
        least? (s.messages.map (·.createdAt)), greatest? (s.messages.map (·.createdAt))⟩
          status) = 0 := by
      cases status <;> rfl
    rw [hcount, hzero, lookup_tally, count_texts]
    rfl
  · rw [hbyType]
    exact pairwise_tally
  · rw [hbyType, mem_tally_iff, count_texts]
  · rw [hbyType, sum_tally, List.length_map]
  · rw [holdest, least?_eq_some_iff]
  · rw [hnewest, greatest?_eq_some_iff]
  · rw [holdest, least?_eq_none_iff, List.map_eq_nil_iff]
  · rw [hnewest, greatest?_eq_none_iff, List.map_eq_nil_iff]

/-- A row that stands for a message has one of the three statuses. -/
theorem length_eq_counts {rows : List MessageRow} (hrows : ∀ r ∈ rows, ∃ m, r.toMessage = .ok m) :
    rows.length = rows.countP (·.has .unread) + rows.countP (·.has .read) +
      rows.countP (·.has .archived) := by
  induction rows with
  | nil => rfl
  | cons r rows ih =>
    obtain ⟨⟨m, hm⟩, hrest⟩ := List.forall_mem_cons.1 hrows
    obtain rfl := toMessage_eq_ok_iff.1 hm
    simp only [List.length_cons, List.countP_cons, has_row, ih hrest]
    cases m.status
    all_goals
      simp only [if_true, reduceCtorEq, if_false]
      omega

/-! ### Cutoffs -/

section

variable {r : MessageRow} {s : Store} {cutoff later : String}

theorem isPrunable_mono (hle : cutoff ≤ later) (h : r.isPrunable cutoff = true) :
    r.isPrunable later = true := by
  rw [MessageRow.isPrunable, Bool.and_eq_true, Option.any_eq_true] at h ⊢
  obtain ⟨hstatus, t, ht, hlt⟩ := h
  exact ⟨hstatus, t, ht, decide_eq_true (lt_of_lt_of_le (of_decide_eq_true hlt) hle)⟩

theorem isArchivable_mono (hle : cutoff ≤ later) (h : r.isArchivable cutoff = true) :
    r.isArchivable later = true := by
  rw [MessageRow.isArchivable, Bool.and_eq_true, decide_eq_true_eq] at h ⊢
  exact ⟨h.1, lt_of_lt_of_le h.2 hle⟩

/-- What may be deleted are the archived rows whose time of archiving is before the cutoff; a row
without such a time is not among them. -/
theorem Store.countPrunable_eq (s : Store) (cutoff : String) : s.countPrunable cutoff =
    s.messages.countP fun r => r.has .archived = true ∧ ∃ t ∈ r.archivedAt, t < cutoff := by
  refine List.countP_congr fun r _ => ?_
  rw [MessageRow.isPrunable, Bool.and_eq_true, Option.any_eq_true, decide_eq_true_eq]
  simp only [Option.mem_def, decide_eq_true_eq]

/-- What may be archived are the rows read before the cutoff, or made before it if it is not known
when they were read. -/
theorem Store.countArchivable_eq (s : Store) (cutoff : String) : s.countArchivable cutoff =
    s.messages.countP fun r => r.has .read = true ∧
      ((∃ t ∈ r.readAt, t < cutoff) ∨ r.readAt = none ∧ r.createdAt < cutoff) := by
  refine List.countP_congr fun r _ => ?_
  rw [MessageRow.isArchivable, Bool.and_eq_true, decide_eq_true_eq, decide_eq_true_eq]
  cases r.readAt <;> simp

theorem Store.countPrunable_le (s : Store) (cutoff : String) :
    s.countPrunable cutoff ≤ s.messages.countP (·.has .archived) :=
  List.countP_mono_left fun _ _ h => (Bool.and_eq_true .. ▸ h).1

theorem Store.countArchivable_le (s : Store) (cutoff : String) :
    s.countArchivable cutoff ≤ s.messages.countP (·.has .read) :=
  List.countP_mono_left fun _ _ h => (Bool.and_eq_true .. ▸ h).1

end

/-! ### All the numbers of a store -/

/-- A store whose rows stand for messages can be counted, and its numbers are right about its
rows. So its messages are those of the three statuses, and those of the types that occur. What a
cutoff picks out are the archived or read rows with an earlier time, and a later cutoff picks out no
less. -/
theorem counters_agree {s : Store} (hrows : ∀ r ∈ s.messages, ∃ m, r.toMessage = .ok m) :
    ∃ x, s.statistics = .ok x ∧ x.Describes s.messages ∧
      x.total = x.unread + x.read + x.archived ∧
      x.total = (x.byType.map (·.2)).sum ∧
      (∀ cutoff, s.countPrunable cutoff = s.messages.countP (fun r => r.has .archived = true ∧
          ∃ t ∈ r.archivedAt, t < cutoff) ∧
        s.countArchivable cutoff = s.messages.countP (fun r => r.has .read = true ∧
          ((∃ t ∈ r.readAt, t < cutoff) ∨ r.readAt = none ∧ r.createdAt < cutoff))) ∧
      (∀ cutoff, s.countPrunable cutoff ≤ x.archived ∧ s.countArchivable cutoff ≤ x.read) ∧
      ∀ cutoff later, cutoff ≤ later →
        s.countPrunable cutoff ≤ s.countPrunable later ∧
          s.countArchivable cutoff ≤ s.countArchivable later := by
  obtain ⟨x, hx, hdescribes⟩ := exists_statistics hrows
  have hread : x.read = s.messages.countP (·.has .read) := hdescribes.count .read
  have harchived : x.archived = s.messages.countP (·.has .archived) := hdescribes.count .archived
  refine ⟨x, hx, hdescribes, ?_, ?_,
    fun cutoff => ⟨s.countPrunable_eq cutoff, s.countArchivable_eq cutoff⟩,
    fun cutoff => ⟨?_, ?_⟩, fun cutoff later hle => ⟨?_, ?_⟩⟩
  · rw [hdescribes.total, length_eq_counts hrows, hread, harchived]
    exact congrArg (· + _ + _) (hdescribes.count .unread).symm
  · rw [hdescribes.total, hdescribes.sum_byType]
  · rw [harchived]
    exact s.countPrunable_le cutoff
  · rw [hread]
    exact s.countArchivable_le cutoff
  · exact List.countP_mono_left fun _ _ => isPrunable_mono hle
  · exact List.countP_mono_left fun _ _ => isArchivable_mono hle

/-- A store with one message of each status and a second one that was read; its row comes from an
old file and does not say when. -/
def mixedStore : Store :=
  ⟨[Message.row ⟨"m1", "a", "b", .request, .normal, noConvoy, "one", .unread,
      "2025-01-03", none, none⟩,
    Message.row ⟨"m2", "a", "b", .discovery, .high, noConvoy, "two", .archived,
      "2025-01-01", some "2025-01-05", some "2025-01-06"⟩,
    Message.row ⟨"m3", "b", "a", .request, .low, noConvoy, "", .read,
      "2025-01-02", none, none⟩,
    Message.row ⟨"m4", "b", "all", .broadcast, .low, noConvoy, "four", .read,
      "2025-01-04", some "2025-01-09", none⟩], [], schemaVersion⟩

theorem counters_agree_mixed :
    (∀ r ∈ mixedStore.messages, ∃ m, r.toMessage = .ok m) ∧
      ∃ x, mixedStore.statistics = .ok x ∧ x.total = 4 ∧ x.unread = 1 ∧ x.read = 2 ∧
        x.archived = 1 ∧ ("request", 2) ∈ x.byType ∧ x.oldest = some "2025-01-01" ∧
        x.newest = some "2025-01-04" ∧ mixedStore.countPrunable "2025-01-07" = x.archived ∧
        mixedStore.countArchivable "2025-01-07" = 1 ∧
        mixedStore.countArchivable "2025-01-10" = x.read := by
  have hrows : ∀ r ∈ mixedStore.messages, ∃ m, r.toMessage = .ok m := by
    simp only [mixedStore, List.forall_mem_cons, toMessage_row, Except.ok.injEq, exists_eq',
      List.not_mem_nil, false_implies, implies_true, and_self]
  obtain ⟨x, hx, hdescribes, -, -, hpicked, -⟩ := counters_agree hrows
  have hread : x.read = 2 := hdescribes.count .read
  have harchived : x.archived = 1 := hdescribes.count .archived
  refine ⟨hrows, x, hx, hdescribes.total, hdescribes.count .unread, hread, harchived, ?_, ?_, ?_,
    ?_, ?_, ?_⟩
  · exact (hdescribes.byType ..).2 (by decide)
  · have hleast : "2025-01-01" ∈ mixedStore.messages.map (·.createdAt) ∧
        ∀ u ∈ mixedStore.messages.map (·.createdAt), "2025-01-01" ≤ u := by decide
    exact (hdescribes.oldest _).2 hleast
  · have hgreatest : "2025-01-04" ∈ mixedStore.messages.map (·.createdAt) ∧
        ∀ u ∈ mixedStore.messages.map (·.createdAt), u ≤ "2025-01-04" := by decide
    exact (hdescribes.newest _).2 hgreatest
  · rw [harchived, (hpicked _).1]
    decide
  · rw [(hpicked _).2]
    decide
  · rw [hread, (hpicked _).2]
    decide

end Mailroom
