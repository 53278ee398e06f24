/-
Where stored messages come from.

Messages are stored when they are sent, when an envelope arrives and when a legacy mailbox is
taken over. Everything else that is done to a store leaves id, sender, recipient and convoy of
its rows as they are, and nothing but joining and leaving touches its roster.

* `Operation.Brings` — the messages that an operation adds, unless their ids are taken;
* `mem_performed` — each row after an operation was there before or is one of these;
* `exists_origin` — so each row of a history was brought by one of its operations;
* `rosterSound_history` — the roster is sound after every history.
-/
import Mailroom.Proofs.EnvelopeBreaks
import Mailroom.Proofs.Mailbox.Refusals
import Mailroom.Proofs.Mailbox.Stamps
import Mailroom.Proofs.Store.RosterHistory

namespace Mailroom

variable {σ : Type}

open Operation (run)

/-! ### Rows -/

theorem Adds.mem_messages {s s' : Store} {ms : List Message} (h : Adds s ms s') {r : MessageRow}
    (hr : r ∈ s'.messages) : r ∈ s.messages ∨ ∃ m ∈ ms, m.row = r := by
  rw [h.messages, List.mem_append, List.mem_map] at hr
  exact hr

theorem mem_messages_takeIn {s : Store} (ms : List Message) {r : MessageRow}
    (hr : r ∈ (s.takeIn ms).messages) : r ∈ s.messages ∨ ∃ m ∈ ms, m.row = r := by
  obtain ⟨ns, hadds, hsub⟩ := s.adds_takeIn ms
  rcases hadds.mem_messages hr with hr | ⟨m, hm, hrow⟩
  · exact .inl hr
  · exact .inr ⟨m, hsub.subset hm, hrow⟩

theorem Message.Later.heading_eq {m m' : Message} (h : m.Later m') :
    m'.row.heading = m.row.heading := by
  rw [h.same]
  rfl

/-- No turn changes the heading of a row. -/
theorem Turns.exists_heading {s s' : Store} {turn : MessageRow → Option MessageRow}
    (h : Turns s turn s') (hs : s.Sound) {r' : MessageRow} (hr' : r' ∈ s'.messages) :
    ∃ r ∈ s.messages, r.heading = r'.heading := by
  rw [h.messages] at hr'
  obtain ⟨r, hr, hturn⟩ := List.mem_filterMap.1 hr'
  obtain ⟨m, rfl, hm⟩ := hs.shaped r hr
  obtain ⟨m', rfl, -, hlater⟩ := h.forward m hm r' hturn
  exact ⟨m.row, hr, hlater.heading_eq.symm⟩

/-- The messages that an operation adds to a store, unless their ids are taken. -/
def Operation.Brings (s : Store) : Operation σ → Message → Prop
  | send b d time ids _, m =>
    ∃ l, d.check b.identity.agentId b.selector = .ok l ∧ m ∈ l.messages s time ids
  | ingest e time, m => m = e.arrived time
  | receive b selector times w, m =>
    m ∈ arrivals b.identity.agentId (pullAll times (b.visited selector) w).1
  | takeOver w path, m => w.isFolder path = true ∧ m ∈ legacyMessages w path legacyFolders
  | _, _ => False

theorem mem_performed {op : Operation σ} {s : Store} (hs : s.Sound) {r' : MessageRow}
    (hr' : r' ∈ (op.perform s).messages) :
    (∃ r ∈ s.messages, r.heading = r'.heading) ∨ ∃ m, op.Brings s m ∧ m.row = r' := by
  have hkept : r' ∈ s.messages → ∃ r ∈ s.messages, r.heading = r'.heading := fun h => ⟨r', h, rfl⟩
  cases op with
  | send b d time ids w =>
    rcases post_cases b d time ids s with ⟨e, hpost⟩ | ⟨l, s', hcheck, hstored, hpost⟩
    · rw [Operation.perform, Mailbox.send, hpost] at hr'
      exact .inl (hkept hr')
    · rw [Operation.perform, send_of_post hpost] at hr'
      rcases (adds_transact hstored).mem_messages hr' with h | ⟨m, hm, hrow⟩
      · exact .inl (hkept h)
      · exact .inr ⟨m, ⟨l, hcheck, hm⟩, hrow⟩
  | ingest e time =>
    rcases mem_messages_takeIn [e.arrived time] hr' with h | ⟨m, hm, hrow⟩
    · exact .inl (hkept h)
    · exact .inr ⟨m, List.mem_singleton.1 hm, hrow⟩
  | receive b selector times w =>
    rw [Operation.perform, b.receive_eq] at hr'
    rcases mem_messages_takeIn _ hr' with h | ⟨m, hm, hrow⟩
    · exact .inl (hkept h)
    · exact .inr ⟨m, hm, hrow⟩
  | check b agent unreadOnly => exact .inl (hkept hr')
  | read id time =>
    rw [Operation.perform] at hr'
    rcases s.read_snd id time with h | h
    · exact .inl (hkept (h ▸ hr'))
    · exact .inl ((turns_markRead s id time).exists_heading hs (h ▸ hr'))
  | archive id time =>
    rw [Operation.perform] at hr'
    rcases s.archive_snd id time with h | h
    · exact .inl (hkept (h ▸ hr'))
    · exact .inl ((turns_markArchived s id time).exists_heading hs (h ▸ hr'))
  | register b r time => exact .inl (hkept (messages_register b r time s ▸ hr'))
  | deregister b given time => exact .inl (hkept (messages_deregister b given time s ▸ hr'))
  | pruneReport days now => exact .inl (hkept hr')
  | prune recorder days now w =>
    rw [Operation.perform] at hr'
    rcases prune_snd s recorder days now w with h | ⟨c, -, h⟩
    · exact .inl (hkept (h ▸ hr'))
    · -- first some rows are archived, then some of the rows are deleted
      rw [h] at hr'
      have harchived := turns_archiveReadBefore s c now.stamp
      obtain ⟨r, hr, hheading⟩ :=
        (turns_deleteArchivedBefore _ c).exists_heading (harchived.sound hs) hr'
      obtain ⟨r₀, hr₀, hheading₀⟩ := harchived.exists_heading hs hr
      exact .inl ⟨r₀, hr₀, hheading₀.trans hheading⟩
  | takeOver w path =>
    rw [Operation.perform, takeOver_eq] at hr'
    rcases mem_messages_takeIn _ hr' with h | ⟨m, hm, hrow⟩
    · exact .inl (hkept h)
    · split at hm
      · exact .inr ⟨m, ⟨‹_›, hm⟩, hrow⟩
      · exact absurd hm List.not_mem_nil

/-- Every row of a history has the heading of a message that one of its operations brought. -/
theorem exists_origin {ops : List (Operation σ)} {r : MessageRow} (hr : r ∈ (run ops).messages) :
    ∃ before op after m, ops = before ++ op :: after ∧ op.Brings (run before) m ∧
      m.row.heading = r.heading := by
  induction ops using List.reverseRecOn generalizing r with
  | nil => exact absurd hr List.not_mem_nil
  | append_singleton ops op ih =>
    rw [run_append_singleton] at hr
    rcases mem_performed (sound_history ops) hr with ⟨r₀, hr₀, hheading⟩ | ⟨m, hbrings, rfl⟩
    · obtain ⟨before, op', after, m, rfl, hbrings, hrow⟩ := ih hr₀
      exact ⟨before, op', after ++ [op], m, by simp, hbrings, hrow.trans hheading⟩
    · exact ⟨ops, op, [], m, rfl, hbrings, rfl⟩

/-! ### The roster -/

theorem roster_ingest (s : Store) (m : Message) : (s.ingest m).1.roster = s.roster := by
  unfold Store.ingest
  split <;> rfl

theorem roster_takeIn (s : Store) (ms : List Message) : (s.takeIn ms).roster = s.roster := by
  induction ms generalizing s with
  | nil => rfl
  | cons m ms ih => rw [Store.takeIn_cons, ih, roster_ingest]

theorem roster_send (b : Mailbox σ) (d : Draft) (time : String) (ids : Nat → String) (s : Store)
    (w : σ) : (b.send d time ids s w).2.1.roster = s.roster := by
  rcases post_cases b d time ids s with ⟨e, hpost⟩ | ⟨l, s', -, hstored, hpost⟩
  · rw [Mailbox.send, hpost]
  · obtain ⟨-, rfl⟩ := transact_eq_ok_iff.1 hstored
    rw [send_of_post hpost]
    rfl

theorem roster_performed (op : Operation σ) (s : Store) :
    (op.perform s).roster = s.roster ∨ ∃ call : RosterCall σ, op.perform s = call.perform s := by
  cases op with
  | send b d time ids w => exact .inl (roster_send b d time ids s w)
  | ingest e time => exact .inl (roster_ingest s (e.arrived time))
  | receive b selector times w =>
    rw [Operation.perform, b.receive_eq]
    exact .inl (roster_takeIn ..)
  | check b agent unreadOnly => exact .inl rfl
  | read id time => exact .inl (Store.altersOnly_read ..).roster
  | archive id time => exact .inl (Store.altersOnly_archive ..).roster
  | register b r time => exact .inr ⟨.register b r time, rfl⟩
  | deregister b given time => exact .inr ⟨.deregister b given time, rfl⟩
  | pruneReport days now => exact .inl rfl
  | prune recorder days now w =>
    rw [Operation.perform]
    rcases prune_snd s recorder days now w with h | ⟨c, -, h⟩
    · exact .inl (congrArg Store.roster h)
    · rw [h]
      exact .inl rfl
  | takeOver w path =>
    rw [Operation.perform, takeOver_eq]
    exact .inl (roster_takeIn ..)

theorem rosterSound_history (ops : List (Operation σ)) : (run ops).RosterSound := by
  induction ops using List.reverseRecOn with
  | nil => exact rosterSound_empty
  | append_singleton ops op ih =>
    rw [run_append_singleton]
    rcases roster_performed op (run ops) with h | ⟨call, h⟩
    · exact ih.of_roster_eq h
    · rw [h]
      exact rosterSound_perform ih call

end Mailroom
