/-
Stamps fit statuses.

Messages come into a store when they are sent, in envelopes and from legacy records, and
reading, archiving and pruning change their status. An unread message has no stamp, a read one
has a time of reading only, and those with a time of archiving are the archived ones. In which
years the store is pruned does not matter here: a clock that is behind the cutoff as a text may
delete a row that it has just archived, but it leaves no row out of shape.

* `MessageRow.InShape` — the stamps of a row are those of its status;
* `sound_performed`, `sound_history` — every operation, and so every history, leaves a sound
  store;
* `Store.KeepsStamps` — no stamp that was there has been changed;
* `stamps_fit_status` — what this means for the rows, for the pruner and for further changes.
-/
import Mailroom.Proofs.Mailbox.Histories
import Mathlib.Data.List.Induction

namespace Mailroom

variable {σ : Type}

open Operation (run)

/-! ### Histories in any years -/

theorem sound_performed {op : Operation σ} {s : Store} (hs : s.Sound) : (op.perform s).Sound := by
  rcases perform_effect op s with ⟨ms, hadds, hms⟩ | ⟨turn, hturns, -⟩ |
    ⟨_, _, now, _, c, -, -, hprune⟩
  · exact hadds.sound hs hms
  · exact hturns.sound hs
  · -- archiving and deleting keep shapes each by itself, whatever the one leaves for the other
    rw [hprune]
    have harchived := (turns_archiveReadBefore s c now.stamp).sound hs
    exact (turns_deleteArchivedBefore _ c).sound harchived

theorem sound_history (ops : List (Operation σ)) : (run ops).Sound := by
  induction ops using List.reverseRecOn with
  | nil => exact Store.sound_empty
  | append_singleton ops op ih =>
    rw [run_append_singleton]
    exact sound_performed ih

/-! ### What a sound store says of its stamps -/

/-- The stamps of a row are those of its status, which is one of three. -/
structure MessageRow.InShape (r : MessageRow) : Prop where
  known : r.has .unread = true ∨ r.has .read = true ∨ r.has .archived = true
  unread : r.has .unread = true → r.readAt = none ∧ r.archivedAt = none
  read : r.has .read = true → r.readAt.isSome ∧ r.archivedAt = none
  archived : r.archivedAt.isSome ↔ r.has .archived = true

theorem inShape_row {m : Message} (hm : m.WellShaped) : m.row.InShape := by
  refine ⟨?_, ?_, ?_, ?_⟩ <;> simp only [has_row]
  · cases m.status <;> simp
  · intro hs
    rw [Message.WellShaped, hs] at hm
    exact hm
  · intro hs
    rw [Message.WellShaped, hs] at hm
    exact hm
  · show m.archivedAt.isSome ↔ m.status = .archived
    constructor
    · intro hsome
      by_contra hs
      simp [Message.archivedAt_of_not_archived hm hs] at hsome
    · intro hs
      rw [Message.WellShaped, hs] at hm
      exact hm

/-- The rows of a store are still there, each with every stamp that it had. -/
def Store.KeepsStamps (s s' : Store) : Prop :=
  List.Forall₂ (fun r r' => r'.id = r.id ∧ (∀ t, r.readAt = some t → r'.readAt = some t) ∧
    ∀ t, r.archivedAt = some t → r'.archivedAt = some t) s.messages s'.messages

theorem Turns.keepsStamps {s s' : Store} {f : MessageRow → MessageRow}
    (h : Turns s (fun r => some (f r)) s') (hs : s.Sound) : s.KeepsStamps s' := by
  rw [Store.KeepsStamps, h.messages, List.filterMap_eq_map', List.forall₂_map_right_iff,
    List.forall₂_same]
  intro r hr
  obtain ⟨m, rfl, hm⟩ := hs.shaped r hr
  obtain ⟨m', hrow, -, hlater⟩ := h.forward m hm (f m.row) rfl
  rw [← hrow]
  exact ⟨hlater.id_eq, hlater.readAt, hlater.archivedAt⟩

/-- What the stamps in a store can be relied on for. -/
structure Store.StampsFit (s : Store) : Prop where
  rows : ∀ r ∈ s.messages, r.InShape
  /-- an archived row has a time for the pruner to compare with, and nothing else decides -/
  prunable : ∀ r ∈ s.messages, r.has .archived = true →
    ∃ t, r.archivedAt = some t ∧ ∀ cutoff, r.isPrunable cutoff = true ↔ t < cutoff
  /-- a read row counts by its time of reading, and never by its creation -/
  archivable : ∀ r ∈ s.messages, r.has .read = true →
    ∃ t, r.readAt = some t ∧ ∀ cutoff, r.isArchivable cutoff = true ↔ t < cutoff
  marked : ∀ id time,
    s.KeepsStamps (s.markRead id time).1 ∧ s.KeepsStamps (s.markArchived id time).1
  archivedOld : ∀ cutoff time, s.KeepsStamps (s.archiveReadBefore cutoff time).1

theorem Store.Sound.inShape {s : Store} (hs : s.Sound) {r : MessageRow} (hr : r ∈ s.messages) :
    r.InShape := by
  obtain ⟨m, rfl, hm⟩ := hs.shaped r hr
  exact inShape_row hm

theorem Store.Sound.stampsFit {s : Store} (hs : s.Sound) : s.StampsFit where
  rows := fun r hr => hs.inShape hr
  prunable := by
    intro r hr harch
    obtain ⟨t, ht⟩ := Option.isSome_iff_exists.1 ((hs.inShape hr).archived.2 harch)
    refine ⟨t, ht, fun cutoff => ?_⟩
    simp [MessageRow.isPrunable, harch, ht]
  archivable := by
    intro r hr hread
    obtain ⟨t, ht⟩ := Option.isSome_iff_exists.1 ((hs.inShape hr).read hread).1
    refine ⟨t, ht, fun cutoff => ?_⟩
    simp [MessageRow.isArchivable, hread, ht]
  marked := fun id time =>
    ⟨(turns_markRead s id time).keepsStamps hs, (turns_markArchived s id time).keepsStamps hs⟩
  archivedOld := fun cutoff time => (turns_archiveReadBefore s cutoff time).keepsStamps hs

/-- Whatever has been done to a store that began empty, its stamps fit. -/
theorem stamps_fit_status (ops : List (Operation σ)) : (run ops).StampsFit :=
  (sound_history ops).stampsFit

/-- One message is read long ago and another is archived just before the year 10000, in which the
store is pruned: written as a text, that year stands before all years of four digits. -/
def lateDesk : List (Operation Unit) :=
  [.ingest ⟨"m1", "a", "b", .request, .normal, noConvoy, "hi"⟩ "2024-01-01T00:00:00.000Z",
    .read "m1" "2024-01-02T00:00:00.000Z",
    .ingest ⟨"m2", "a", "b", .discovery, .normal, noConvoy, "hi"⟩ "2024-01-01T00:00:00.000Z",
    .archive "m2" "9999-12-31T00:00:00.000Z",
    .ingest ⟨"m3", "a", "b", .request, .normal, noConvoy, "hi"⟩ "2024-01-01T00:00:00.000Z",
    .prune forget 7 ⟨253402387200, 0⟩ ()]

/-- The message that was read is archived and deleted at once; the two others are in shape. -/
theorem stamps_fit_status_lateDesk :
    (run lateDesk).messages.map (fun r => (r.id, r.archivedAt)) =
        [("m2", some "9999-12-31T00:00:00.000Z"), ("m3", none)] ∧
      (run lateDesk).StampsFit :=
  ⟨by decide +kernel, stamps_fit_status lateDesk⟩

end Mailroom
