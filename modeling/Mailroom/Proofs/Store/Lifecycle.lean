/-
The life of a stored message.

Whatever an operation does to a row that is there, it drops the row or turns it into the
row of the same message at a later time. A row is in shape when its stamps fit its status,
and stamps are kept because only rows in shape occur: a row that is not read has no time
of reading that could be overwritten.

* `Message.Later` — the same message, no earlier in its life;
* `Message.WellShaped`, `Store.Sound` — the invariant of stores;
* `Turns` — what happens to the rows that are there, row by row;
* `Turns.sound`, `Turns.later` — the invariant is kept, and rows move forward;
* `turns_markRead`, `turns_markArchived`, `turns_archiveReadBefore`,
  `turns_deleteArchivedBefore` — the changes of rows that a store offers;
* `turns_prune` — the last two of them together, when the clock is not behind the cutoff.
-/
import Mailroom.Proofs.Store.Growth
import Mailroom.Proofs.Store.Rows
import Mailroom.Proofs.Time.StampOrder
import Mailroom.Store.Retention

namespace Mailroom

/-- How far a message with this status has come. -/
def MessageStatus.rank : MessageStatus → Nat
  | unread => 0
  | read => 1
  | archived => 2

namespace Message

/-- The same message, no earlier in its life: only status and stamps may differ, the status
is no earlier one, and stamps that are there stay as they are. -/
structure Later (m m' : Message) : Prop where
  same : m' = { m with status := m'.status, readAt := m'.readAt, archivedAt := m'.archivedAt }
  forward : m.status.rank ≤ m'.status.rank
  readAt : ∀ t, m.readAt = some t → m'.readAt = some t
  archivedAt : ∀ t, m.archivedAt = some t → m'.archivedAt = some t

/-- Whether the stamps of a message fit its status. -/
def WellShaped (m : Message) : Prop :=
  match m.status with
  | .unread => m.readAt = none ∧ m.archivedAt = none
  | .read => m.readAt.isSome ∧ m.archivedAt = none
  | .archived => m.archivedAt.isSome

theorem Later.refl (m : Message) : m.Later m :=
  ⟨rfl, Nat.le_refl _, fun _ h => h, fun _ h => h⟩

theorem Later.id_eq {m m' : Message} (h : m.Later m') : m'.id = m.id := by
  rw [h.same]

theorem Later.trans {m m' m'' : Message} (h : m.Later m') (h' : m'.Later m'') : m.Later m'' where
  same := by
    rw [h'.same, h.same]
  forward := Nat.le_trans h.forward h'.forward
  readAt := fun t ht => h'.readAt t (h.readAt t ht)
  archivedAt := fun t ht => h'.archivedAt t (h.archivedAt t ht)

/-- A message as it is when it is read. -/
def readNow (m : Message) (time : String) : Message :=
  { m with status := .read, readAt := some time }

/-- A message as it is when it is archived. -/
def archivedNow (m : Message) (time : String) : Message :=
  { m with status := .archived, archivedAt := some time }

variable {m : Message}

theorem wellShaped_readNow (time : String) (hm : m.WellShaped) (hs : m.status = .unread) :
    (m.readNow time).WellShaped ∧ m.Later (m.readNow time) := by
  rw [WellShaped, hs] at hm
  obtain ⟨hread, harch⟩ := hm
  -- the stamp of reading is new: an unread message in shape had none
  refine ⟨⟨rfl, harch⟩, rfl, ?_, ?_, fun _ h => h⟩
  · rw [hs]
    exact Nat.zero_le _
  · intro t ht
    exact absurd (hread ▸ ht) (by simp)

theorem archivedAt_of_not_archived (hm : m.WellShaped) (hs : m.status ≠ .archived) :
    m.archivedAt = none := by
  rw [WellShaped] at hm
  split at hm
  · exact hm.2
  · exact hm.2
  · exact absurd ‹_› hs

theorem wellShaped_archivedNow (time : String) (hm : m.WellShaped) (hs : m.status ≠ .archived) :
    (m.archivedNow time).WellShaped ∧ m.Later (m.archivedNow time) := by
  have harch := archivedAt_of_not_archived hm hs
  refine ⟨rfl, rfl, ?_, fun _ h => h, ?_⟩
  · cases hm' : m.status <;> simp [MessageStatus.rank, archivedNow]
  · intro t ht
    exact absurd (harch ▸ ht) (by simp)

end Message

/-- The invariant of stores: ids are distinct, and every row stands for a message in shape. -/
structure Store.Sound (s : Store) : Prop where
  distinct : s.ids.Nodup
  shaped : ∀ r ∈ s.messages, ∃ m : Message, m.row = r ∧ m.WellShaped

theorem Store.sound_empty : Store.empty.Sound := ⟨List.nodup_nil, by simp [Store.empty,
  Database.upgrade_eq, Database.blank]⟩

theorem Adds.sound {s s' : Store} {ms : List Message} (h : Adds s ms s') (hs : s.Sound)
    (hms : ∀ m ∈ ms, m.WellShaped) : s'.Sound where
  distinct := h.nodup_ids hs.distinct
  shaped := by
    intro r hr
    rw [h.messages] at hr
    rcases List.mem_append.1 hr with hr | hr
    · exact hs.shaped r hr
    · obtain ⟨m, hm, rfl⟩ := List.mem_map.1 hr
      exact ⟨m, rfl, hms m hm⟩

/-! ### Rows that are there -/

/-- Each row of a store has been dropped or turned into that of a later message. -/
structure Turns (s : Store) (turn : MessageRow → Option MessageRow) (s' : Store) : Prop where
  messages : s'.messages = s.messages.filterMap turn
  forward : ∀ m : Message, m.WellShaped → ∀ r', turn m.row = some r' →
    ∃ m', m'.row = r' ∧ m'.WellShaped ∧ m.Later m'

namespace Turns

variable {s s' s'' : Store} {turn turn' : MessageRow → Option MessageRow}

/-- Two turns, one after the other. -/
theorem trans (h : Turns s turn s') (h' : Turns s' turn' s'') :
    Turns s (fun r => (turn r).bind turn') s'' where
  messages := by
    rw [h'.messages, h.messages, List.filterMap_filterMap]
  forward := by
    intro m hm r'' hturn
    obtain ⟨r', hr', hr''⟩ := Option.bind_eq_some_iff.1 hturn
    obtain ⟨m', rfl, hm', hlater⟩ := h.forward m hm r' hr'
    obtain ⟨m'', rfl, hm'', hlater'⟩ := h'.forward m' hm' r'' hr''
    exact ⟨m'', rfl, hm'', hlater.trans hlater'⟩

theorem id_eq (h : Turns s turn s') (hs : s.Sound) {r r' : MessageRow} (hr : r ∈ s.messages)
    (hturn : turn r = some r') : r'.id = r.id := by
  obtain ⟨m, rfl, hm⟩ := hs.shaped r hr
  obtain ⟨m', rfl, -, hlater⟩ := h.forward m hm r' hturn
  exact hlater.id_eq

theorem ids_sublist (h : Turns s turn s') (hs : s.Sound) : s'.ids.Sublist s.ids := by
  have key : ∀ rows : List MessageRow, (∀ r ∈ rows, r ∈ s.messages) →
      ((rows.filterMap turn).map (·.id)).Sublist (rows.map (·.id)) := by
    intro rows
    -- a row that is dropped takes its id along, any other row keeps it in its place
    induction rows with
    | nil =>
      intro _
      exact .slnil
    | cons r rows ih =>
      intro hrows
      have ih := ih fun x hx => hrows x (List.mem_cons_of_mem _ hx)
      cases hturn : turn r with
      | none =>
        rw [List.filterMap_cons_none hturn]
        exact ih.cons _
      | some r' =>
        rw [List.filterMap_cons_some hturn, List.map_cons,
          h.id_eq hs (hrows r List.mem_cons_self) hturn]
        exact ih.cons_cons _
  rw [Store.ids, h.messages]
  exact key s.messages fun _ => id

theorem sound (h : Turns s turn s') (hs : s.Sound) : s'.Sound where
  distinct := (h.ids_sublist hs).nodup hs.distinct
  shaped := by
    intro r' hr'
    rw [h.messages] at hr'
    obtain ⟨r, hr, hturn⟩ := List.mem_filterMap.1 hr'
    obtain ⟨m, rfl, hm⟩ := hs.shaped r hr
    obtain ⟨m', hrow, hm', -⟩ := h.forward m hm r' hturn
    exact ⟨m', hrow, hm'⟩

/-- The row that has the id of a row before is what that row was turned into. -/
theorem eq_some (h : Turns s turn s') (hs : s.Sound) {r r' : MessageRow} (hr : r ∈ s.messages)
    (hr' : r' ∈ s'.messages) (hid : r'.id = r.id) : turn r = some r' := by
  rw [h.messages] at hr'
  obtain ⟨r₀, hr₀, hturn⟩ := List.mem_filterMap.1 hr'
  -- it came from a row of the same id, and there is only one of them
  have hid₀ : r₀.id = r.id := (h.id_eq hs hr₀ hturn).symm.trans hid
  rw [← List.inj_on_of_nodup_map hs.distinct hr₀ hr hid₀]
  exact hturn

theorem later (h : Turns s turn s') (hs : s.Sound) {r r' : MessageRow} (hr : r ∈ s.messages)
    (hr' : r' ∈ s'.messages) (hid : r'.id = r.id) :
    ∃ m m' : Message, m.row = r ∧ m'.row = r' ∧ m.Later m' := by
  obtain ⟨m, rfl, hm⟩ := hs.shaped r hr
  obtain ⟨m', hrow, -, hlater⟩ := h.forward m hm r' (h.eq_some hs hr hr' hid)
  exact ⟨m, m', rfl, hrow, hlater⟩

/-- A row whose id is gone has been dropped. -/
theorem eq_none (h : Turns s turn s') (hs : s.Sound) {r : MessageRow} (hr : r ∈ s.messages)
    (hgone : r.id ∉ s'.ids) : turn r = none := by
  cases hturn : turn r with
  | none => rfl
  | some r' =>
    refine absurd ?_ hgone
    rw [← h.id_eq hs hr hturn, Store.ids, h.messages]
    exact List.mem_map_of_mem (List.mem_filterMap.2 ⟨r, hr, hturn⟩)

end Turns

/-! ### The operations that change rows -/

theorem updateWhere_messages (s : Store) (p : MessageRow → Bool) (f : MessageRow → MessageRow) :
    (s.updateWhere p f).1.messages = s.messages.filterMap fun r => some (if p r then f r else r) := by
  simp [Store.updateWhere]

/-- Changing the rows that fit a condition turns them, if it makes the row of a later message in
shape of every such row. -/
theorem turns_updateWhere (s : Store) {p : MessageRow → Bool} {f : MessageRow → MessageRow}
    (hf : ∀ m : Message, m.WellShaped → p m.row = true →
      ∃ m' : Message, m'.row = f m.row ∧ m'.WellShaped ∧ m.Later m') :
    Turns s (fun r => some (if p r then f r else r)) (s.updateWhere p f).1 where
  messages := updateWhere_messages ..
  forward := by
    intro m hm r' hturn
    obtain rfl := Option.some.inj hturn
    by_cases hcond : p m.row
    · rw [if_pos hcond]
      exact hf m hm hcond
    · rw [if_neg hcond]
      exact ⟨m, rfl, hm, .refl m⟩

/-- What reading does to a row. -/
def readTurn (id time : String) (r : MessageRow) : Option MessageRow :=
  some (if r.id == id && r.has .unread then
    { r with status := MessageStatus.read.name, readAt := some time } else r)

/-- What archiving does to a row. -/
def archiveTurn (id time : String) (r : MessageRow) : Option MessageRow :=
  some (if r.id == id && !r.has .archived then
    { r with status := MessageStatus.archived.name, archivedAt := some time } else r)

/-- What pruning does to a row. -/
def pruneTurn (cutoff time : String) (r : MessageRow) : Option MessageRow :=
  if r.isPrunable cutoff then none
  else some (if r.isArchivable cutoff then
    { r with status := MessageStatus.archived.name, archivedAt := some time } else r)

theorem turns_markRead (s : Store) (id time : String) :
    Turns s (readTurn id time) (s.markRead id time).1 := by
  refine turns_updateWhere s fun m hm hcond => ?_
  have hs : m.status = .unread := has_row.1 (Bool.and_eq_true_iff.1 hcond).2
  exact ⟨m.readNow time, rfl, Message.wellShaped_readNow time hm hs⟩

theorem turns_markArchived (s : Store) (id time : String) :
    Turns s (archiveTurn id time) (s.markArchived id time).1 := by
  refine turns_updateWhere s fun m hm hcond => ?_
  have hs : m.status ≠ .archived := by
    intro hs
    simp [has_row.2 hs] at hcond
  exact ⟨m.archivedNow time, rfl, Message.wellShaped_archivedNow time hm hs⟩

theorem not_isPrunable_of_isArchivable {r : MessageRow} {cutoff : String}
    (h : r.isArchivable cutoff = true) : r.isPrunable cutoff = false := by
  have hread : r.status = MessageStatus.read.name := by
    simpa [MessageRow.has] using (Bool.and_eq_true_iff.1 h).1
  simp [MessageRow.isPrunable, MessageRow.has, hread, MessageStatus.name]

/-- Archiving the old read messages makes none of them prunable, because the stamp of a row
that has just been archived does not stand before the cutoff. -/
theorem isPrunable_archived {cutoff time : String} (hle : ¬ time < cutoff) (r : MessageRow) :
    MessageRow.isPrunable cutoff (if r.isArchivable cutoff then
      { r with status := MessageStatus.archived.name, archivedAt := some time } else r) =
        r.isPrunable cutoff := by
  by_cases ha : r.isArchivable cutoff
  · rw [if_pos ha, not_isPrunable_of_isArchivable ha]
    simp only [MessageRow.isPrunable, Option.any_some, decide_eq_false hle, Bool.and_false]
  · rw [if_neg ha]

/-- Deleting after archiving does to a row what pruning does. -/
theorem guard_not_isPrunable {cutoff time : String} (hle : ¬ time < cutoff) (r : MessageRow) :
    Option.guard (fun r => !MessageRow.isPrunable cutoff r) (if r.isArchivable cutoff then
      { r with status := MessageStatus.archived.name, archivedAt := some time } else r) =
        pruneTurn cutoff time r := by
  rw [Option.guard, isPrunable_archived hle, pruneTurn]
  cases hp : r.isPrunable cutoff
  · rfl
  · rfl

theorem turns_archiveReadBefore (s : Store) (cutoff time : String) :
    Turns s (fun r => some (if r.isArchivable cutoff then
      { r with status := MessageStatus.archived.name, archivedAt := some time } else r))
      (s.archiveReadBefore cutoff time).1 := by
  refine turns_updateWhere s fun m hm hcond => ?_
  have hs : m.status = .read := has_row.1 (Bool.and_eq_true_iff.1 hcond).1
  exact ⟨m.archivedNow time, rfl, Message.wellShaped_archivedNow time hm (by simp [hs])⟩

theorem turns_deleteArchivedBefore (s : Store) (cutoff : String) :
    Turns s (Option.guard fun r => !MessageRow.isPrunable cutoff r)
      (s.deleteArchivedBefore cutoff).1 where
  messages := by
    rw [List.filterMap_eq_filter]
    rfl
  forward := by
    intro m hm r' hturn
    obtain ⟨rfl, -⟩ := Option.guard_eq_some_iff.1 hturn
    exact ⟨m, rfl, hm, .refl m⟩

theorem turns_prune (s : Store) {cutoff time : String} (hle : ¬ time < cutoff) :
    Turns s (pruneTurn cutoff time)
      ((s.archiveReadBefore cutoff time).1.deleteArchivedBefore cutoff).1 := by
  have h := (turns_archiveReadBefore s cutoff time).trans (turns_deleteArchivedBefore _ cutoff)
  have hturn : pruneTurn cutoff time = _ := funext fun r => (guard_not_isPrunable hle r).symm
  rw [hturn]
  exact h

end Mailroom
