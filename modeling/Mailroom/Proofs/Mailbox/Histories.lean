/-
Histories of a store.

Many mailboxes may work on one store, in any order and each in surroundings of its own. A
history is what they do, one operation after another; every operation comes with all that
it is given.

* `Operation`, `Operation.perform` — one operation, and the store after it;
* `Operation.run` — the store after a history that began with an empty store;
* `perform_effect`, `perform_cases` — an operation adds rows, or moves rows forward, or prunes;
* `sound_run` — the store is sound after every history;
* `history_moves_forward` — what every step of a history does to the rows that are there.
-/
import Mailroom.Mailbox.Enrolment
import Mailroom.Proofs.Legacy.TakeOver
import Mailroom.Proofs.Mailbox.Arrivals
import Mailroom.Proofs.Mailbox.Letters
import Mailroom.Proofs.Mailbox.PruneCourse
import Mailroom.Proofs.Mailbox.Reading

namespace Mailroom

variable {σ : Type}

/-- An operation on a store, with the mailbox and the surroundings that it works in. -/
inductive Operation (σ : Type) where
  | send (b : Mailbox σ) (d : Draft) (time : String) (ids : Nat → String) (w : σ)
  | ingest (e : Envelope) (time : String)
  | receive (b : Mailbox σ) (selector : Option String) (times : Nat → String) (w : σ)
  | check (b : Mailbox σ) (agent : Option String) (unreadOnly : Bool)
  | read (id time : String)
  | archive (id time : String)
  | register (b : Mailbox σ) (r : Registration) (time : String)
  | deregister (b : Mailbox σ) (given : Option String) (time : String)
  | pruneReport (days : Nat) (now : Time.Instant)
  | prune (recorder : Recorder σ) (days : Nat) (now : Time.Instant) (w : σ)
  | takeOver (w : Surroundings) (path : String)

namespace Operation

/-- The store after an operation, whether it was refused or not. -/
def perform (s : Store) : Operation σ → Store
  | send b d time ids w => (b.send d time ids s w).2.1
  | ingest e time => (Mailbox.ingest e time s).1
  | receive b selector times w => (b.receive selector times s w).2.1
  | check _ _ _ => s
  | read id time => (s.read id time).2
  | archive id time => (s.archive id time).2
  | register b r time => (b.register r time s).2
  | deregister b given time => (b.deregister given time s).2
  | pruneReport _ _ => s
  | prune recorder days now w => (s.prune recorder days now w).2.1
  | takeOver w path => (s.takeOver w path).2

/-- Whether the year in which an operation prunes is written with four digits. -/
def HasShortYear : Operation σ → Prop
  | prune _ _ now _ => now.HasShortYear
  | _ => True

end Operation

/-- The store after a history that began with an empty store. -/
def Operation.run (ops : List (Operation σ)) : Store := ops.foldl perform .empty

open Operation (run)

theorem run_append_singleton (ops : List (Operation σ)) (op : Operation σ) :
    run (ops ++ [op]) = op.perform (run ops) := by
  rw [run, List.foldl_append]
  rfl

/-! ### What an operation can do -/

/-- An operation has added messages in shape to a store. -/
def Grows (s s' : Store) : Prop := ∃ ms, Adds s ms s' ∧ ∀ m ∈ ms, m.WellShaped

theorem grows_of_messages_eq {s s' : Store} (h : s'.messages = s.messages) : Grows s s' :=
  ⟨[], .of_messages_eq h, by simp⟩

theorem grows_takeIn {s : Store} {ms : List Message} (h : ∀ m ∈ ms, m.WellShaped) :
    Grows s (s.takeIn ms) := by
  obtain ⟨ns, hadds, hsub⟩ := s.adds_takeIn ms
  exact ⟨ns, hadds, fun m hm => h m (hsub.subset hm)⟩

theorem wellShaped_arrived (e : Envelope) (time : String) : (e.arrived time).WellShaped :=
  ⟨rfl, rfl⟩

theorem wellShaped_of_mem_messages {l : Letter} {s : Store} {time : String} {ids : Nat → String}
    {m : Message} (h : m ∈ l.messages s time ids) : m.WellShaped := by
  obtain ⟨i, hi, rfl⟩ := List.mem_mapIdx.1 h
  exact ⟨rfl, rfl⟩

theorem grows_send (b : Mailbox σ) (d : Draft) (time : String) (ids : Nat → String) (s : Store)
    (w : σ) : Grows s (b.send d time ids s w).2.1 := by
  rcases post_cases b d time ids s with ⟨e, hpost⟩ | ⟨l, s', -, hstored, hpost⟩
  · rw [Mailbox.send, hpost]
    exact grows_of_messages_eq rfl
  · -- the messages are stored before anything is relayed, whatever comes of relaying
    rw [send_of_post hpost]
    exact ⟨_, adds_transact hstored, fun m hm => wellShaped_of_mem_messages hm⟩

theorem grows_receive (b : Mailbox σ) (selector : Option String) (times : Nat → String)
    (s : Store) (w : σ) : Grows s (b.receive selector times s w).2.1 := by
  rw [b.receive_eq]
  refine grows_takeIn fun m hm => ?_
  obtain ⟨e, time, -, -, rfl⟩ := mem_arrivals.1 hm
  exact wellShaped_arrived e time

theorem grows_takeOver (s : Store) (w : Surroundings) (path : String) :
    Grows s (s.takeOver w path).2 := by
  rw [takeOver_eq]
  refine grows_takeIn fun m hm => ?_
  split at hm
  · obtain ⟨content, archived, hparse⟩ := exists_parse_of_mem_legacyMessages hm
    exact wellShaped_of_parse hparse
  · exact absurd hm (by simp)

theorem messages_register (b : Mailbox σ) (r : Registration) (time : String) (s : Store) :
    (b.register r time s).2.messages = s.messages := by
  unfold Mailbox.register
  dsimp only
  split
  · unfold Store.register
    split <;> rfl
  · rfl

theorem messages_deregister (b : Mailbox σ) (given : Option String) (time : String) (s : Store) :
    (b.deregister given time s).2.messages = s.messages := by
  have hset : (s.setStatus (b.idOr given) .inactive time).1.messages = s.messages := rfl
  unfold Mailbox.deregister
  dsimp only
  generalize s.setStatus (b.idOr given) .inactive time = changed at hset ⊢
  rcases changed with ⟨s', _ | _⟩ <;> exact hset

theorem prune_snd (s : Store) (recorder : Recorder σ) (days : Nat) (now : Time.Instant) (w : σ) :
    (s.prune recorder days now w).2.1 = s ∨ ∃ c, cutoff days now = .ok c ∧
      (s.prune recorder days now w).2.1 =
        ((s.archiveReadBefore c now.stamp).1.deleteArchivedBefore c).1 := by
  cases hmemorable : s.memorable days now with
  | error e => exact .inl (by rw [Store.prune, hmemorable])
  | ok found =>
    obtain ⟨c, calls⟩ := found
    refine .inr ⟨c, ?_, by rw [prune_eq_whole hmemorable, Pruning.whole_eq]⟩
    simp only [Store.memorable, bind_eq_ok, pure_eq_ok, mapError_eq_ok] at hmemorable
    obtain ⟨c, hcutoff, calls, -, heq⟩ := hmemorable
    rw [hcutoff, (Prod.mk.inj heq).1]

/-- An operation adds rows, or moves rows forward without dropping any, or archives and deletes
old ones. -/
theorem perform_effect (op : Operation σ) (s : Store) :
    Grows s (op.perform s) ∨
      (∃ turn, Turns s turn (op.perform s) ∧ ∀ r, turn r ≠ none) ∨
      ∃ recorder days now w c, op = .prune recorder days now w ∧ cutoff days now = .ok c ∧
        op.perform s = ((s.archiveReadBefore c now.stamp).1.deleteArchivedBefore c).1 := by
  -- one case for each operation; one that is refused is a growth by nothing
  cases op with
  | send b d time ids w => exact .inl (grows_send ..)
  | ingest e time =>
    have hgrows : Grows s (s.takeIn [e.arrived time]) :=
      grows_takeIn (by simp [wellShaped_arrived])
    exact .inl hgrows
  | receive b selector times w => exact .inl (grows_receive ..)
  | check b agent unreadOnly => exact .inl (grows_of_messages_eq rfl)
  | read id time =>
    rcases s.read_snd id time with h | h
    · exact .inl (grows_of_messages_eq (congrArg Store.messages h))
    · refine .inr (.inl ⟨readTurn id time, ?_, fun r => Option.some_ne_none _⟩)
      rw [Operation.perform, h]
      exact turns_markRead s id time
  | archive id time =>
    rcases s.archive_snd id time with h | h
    · exact .inl (grows_of_messages_eq (congrArg Store.messages h))
    · refine .inr (.inl ⟨archiveTurn id time, ?_, fun r => Option.some_ne_none _⟩)
      rw [Operation.perform, h]
      exact turns_markArchived s id time
  | register b r time => exact .inl (grows_of_messages_eq (messages_register b r time s))
  | deregister b given time =>
    exact .inl (grows_of_messages_eq (messages_deregister b given time s))
  | pruneReport days now => exact .inl (grows_of_messages_eq rfl)
  | prune recorder days now w =>
    rcases prune_snd s recorder days now w with h | ⟨c, hcutoff, h⟩
    · exact .inl (grows_of_messages_eq (congrArg Store.messages h))
    · exact .inr (.inr ⟨recorder, days, now, w, c, rfl, hcutoff, h⟩)
  | takeOver w path => exact .inl (grows_takeOver ..)

/-- An operation adds rows, or moves rows forward without dropping any, or prunes. -/
theorem perform_cases (op : Operation σ) (s : Store) (hop : op.HasShortYear) :
    Grows s (op.perform s) ∨
      (∃ turn, Turns s turn (op.perform s) ∧ ∀ r, turn r ≠ none) ∨
      ∃ recorder days now w c, op = .prune recorder days now w ∧ cutoff days now = .ok c ∧
        Turns s (pruneTurn c now.stamp) (op.perform s) := by
  rcases perform_effect op s with h | h | ⟨recorder, days, now, w, c, rfl, hcutoff, h⟩
  · exact .inl h
  · exact .inr (.inl h)
  · -- only here the year matters: the stamp of now must not sort before the cutoff
    refine .inr (.inr ⟨recorder, days, now, w, c, rfl, hcutoff, ?_⟩)
    rw [h]
    exact turns_prune s (not_stamp_lt_cutoff hop hcutoff)

theorem sound_perform {op : Operation σ} {s : Store} (hs : s.Sound) (hop : op.HasShortYear) :
    (op.perform s).Sound := by
  rcases perform_cases op s hop with ⟨ms, hadds, hms⟩ | ⟨turn, hturns, -⟩ |
    ⟨_, _, _, _, _, -, -, hturns⟩
  · exact hadds.sound hs hms
  · exact hturns.sound hs
  · exact hturns.sound hs

theorem sound_run {ops : List (Operation σ)} (hops : ∀ op ∈ ops, op.HasShortYear) :
    (run ops).Sound := by
  -- a history may go on from any sound store, not only from the empty one
  have key : ∀ s : Store, s.Sound → (ops.foldl Operation.perform s).Sound := by
    induction ops with
    | nil => exact fun _ h => h
    | cons op ops ih =>
      intro s hs
      exact ih (fun o ho => hops o (List.mem_cons_of_mem _ ho)) _
        (sound_perform hs (hops op List.mem_cons_self))
  exact key _ Store.sound_empty

/-! ### Messages move forward -/

theorem later_of_grows {s s' : Store} (h : Grows s s') (hs : s.Sound) {r r' : MessageRow}
    (hr : r ∈ s.messages) (hr' : r' ∈ s'.messages) (hid : r'.id = r.id) :
    ∃ m m' : Message, m.row = r ∧ m'.row = r' ∧ m.Later m' := by
  obtain ⟨ms, hadds, hms⟩ := h
  have hkept : r ∈ s'.messages := by
    rw [hadds.messages]
    exact List.mem_append_left _ hr
  -- the old row is still there, so the row with its id is the same row
  obtain rfl := List.inj_on_of_nodup_map (hadds.nodup_ids hs.distinct) hr' hkept hid
  obtain ⟨m, hrow, -⟩ := hs.shaped r' hr
  exact ⟨m, m, hrow, hrow, .refl m⟩

/-- A row that pruning drops was archived before the cutoff. -/
theorem archived_of_pruneTurn_eq_none {c time : String} {r : MessageRow}
    (h : pruneTurn c time r = none) :
    r.has .archived = true ∧ ∃ t, r.archivedAt = some t ∧ t < c := by
  have hprunable : r.isPrunable c = true := by
    by_contra hnot
    simp [pruneTurn, hnot] at h
  obtain ⟨harch, hbefore⟩ := Bool.and_eq_true_iff.1 hprunable
  obtain ⟨t, ht, hlt⟩ := (Option.any_eq_true ..).1 hbefore
  exact ⟨harch, t, ht, of_decide_eq_true hlt⟩

/-- What an operation may do with the messages that are there: `s` is the store before it
and `s'` the store after it. -/
structure Operation.MovesForward (op : Operation σ) (s s' : Store) : Prop where
  distinct : s.ids.Nodup ∧ s'.ids.Nodup
  later : ∀ r ∈ s.messages, ∀ r' ∈ s'.messages, r'.id = r.id →
    ∃ m m' : Message, m.row = r ∧ m'.row = r' ∧ m.Later m'
  read : ∀ id time, op = .read id time →
    s.AltersOnly id s' ∧ ∀ e, (s.read id time).1 = .error e → s' = s
  archive : ∀ id time, op = .archive id time →
    s.AltersOnly id s' ∧ ∀ e, (s.archive id time).1 = .error e → s' = s
  removed : ∀ r ∈ s.messages, r.id ∉ s'.ids →
    ∃ recorder days now w c t, op = .prune recorder days now w ∧ cutoff days now = .ok c ∧
      r.has .archived = true ∧ r.archivedAt = some t ∧ t < c

/-- Every step of every history moves the messages that are there forward. -/
theorem history_moves_forward (ops : List (Operation σ)) (hops : ∀ op ∈ ops, op.HasShortYear)
    (before : List (Operation σ)) (op : Operation σ) (after : List (Operation σ))
    (hsplit : ops = before ++ op :: after) :
    op.MovesForward (run before) (run (before ++ [op])) := by
  subst hsplit
  rw [run_append_singleton]
  have hop : op.HasShortYear := hops op (by simp)
  have hs : (run before).Sound := sound_run fun o ho => hops o (List.mem_append_left _ ho)
  have hs' := sound_perform hs hop
  refine ⟨⟨hs.distinct, hs'.distinct⟩, ?_, ?_, ?_, ?_⟩
  · intro r hr r' hr' hid
    rcases perform_cases op (run before) hop with hgrows | ⟨turn, hturns, -⟩ |
      ⟨_, _, _, _, _, -, -, hturns⟩
    · exact later_of_grows hgrows hs hr hr' hid
    · exact hturns.later hs hr hr' hid
    · exact hturns.later hs hr hr' hid
  · rintro id time rfl
    exact ⟨Store.altersOnly_read .., fun e he => Store.read_of_error hs he⟩
  · rintro id time rfl
    exact ⟨Store.altersOnly_archive .., fun e he => Store.archive_of_error hs he⟩
  · intro r hr hgone
    -- growing keeps every id, reading and archiving drop no row, so it was a pruning
    rcases perform_cases op (run before) hop with ⟨ms, hadds, -⟩ | ⟨turn, hturns, hkeeps⟩ |
      ⟨recorder, days, now, w, c, rfl, hcutoff, hturns⟩
    · exact absurd (hadds.subset_ids (List.mem_map_of_mem hr)) hgone
    · exact absurd (hturns.eq_none hs hr hgone) (hkeeps r)
    · obtain ⟨harch, t, ht, hlt⟩ :=
        archived_of_pruneTurn_eq_none (hturns.eq_none hs hr hgone)
      exact ⟨recorder, days, now, w, c, t, rfl, hcutoff, harch, ht, hlt⟩

/-- A message comes in and is read and archived. -/
def oldMail : List (Operation Unit) :=
  [.ingest ⟨"m", "a", "b", .request, .normal, noConvoy, "hi"⟩ "2024-01-01T00:00:00.000Z",
    .read "m" "2024-01-01T00:00:00.000Z", .archive "m" "2024-01-02T00:00:00.000Z"]

/-- A pruning at the beginning of the year 2025. -/
def pruneIn2025 : Operation Unit := .prune forget 7 ⟨1735689600, 0⟩ ()

theorem history_moves_forward_oldMail :
    (∀ op ∈ oldMail ++ [pruneIn2025], op.HasShortYear) ∧ (run oldMail).ids = ["m"] ∧
      (run (oldMail ++ [pruneIn2025])).ids = [] ∧
      pruneIn2025.MovesForward (run oldMail) (run (oldMail ++ [pruneIn2025])) := by
  have hyears : ∀ op ∈ oldMail ++ [pruneIn2025], op.HasShortYear := by
    have hnow : pruneIn2025.HasShortYear := by
      unfold pruneIn2025 Operation.HasShortYear Time.Instant.HasShortYear
      decide
    simpa [oldMail, Operation.HasShortYear] using hnow
  exact ⟨hyears, by decide, by decide +kernel,
    history_moves_forward (oldMail ++ [pruneIn2025]) hyears oldMail pruneIn2025 [] rfl⟩

end Mailroom
