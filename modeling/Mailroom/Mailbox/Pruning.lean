/-
Pruning.

Messages that were archived more than some days ago are deleted; those of a memorable
type are handed to a memory first. Messages that were read as long ago are archived in
the same pass, and so are deleted in a later one.

* `Store.pruneReport` — what pruning would do;
* `PruneStep`, `Pruning.step`, `pruneCourse` — the steps of it, and their order;
* `Store.prune` — does it: first everything is read and remembered, then changed;
* `Recorder` — a memory, acting on surroundings of any type.

A memory that refuses is counted and does not keep the message from being deleted.
-/
import Mailroom.Mailbox.Basic
import Mailroom.Store.Retention

namespace Mailroom

/-- Takes a text and its tags into a memory. -/
abbrev Recorder (σ : Type) := String → List String → σ → Except Error Unit × σ

/-- The memory that forgets everything. -/
def forget {σ : Type} : Recorder σ := fun _ _ w => (.ok (), w)

/-- What pruning would do. -/
structure PruneReport where
  days : Nat
  cutoff : String
  statistics : Statistics
  prunable : Nat
  archivable : Nat
  deriving DecidableEq, Repr

/-- What pruning did. -/
structure PruneOutcome where
  remembered : Nat
  failures : Nat
  archived : Nat
  deleted : Nat
  deriving DecidableEq, Repr

/-- The stamp of the moment so many days ago. -/
def cutoff (days : Nat) (now : Time.Instant) : Except Error String :=
  match now.minusDays? days with
  | some t => .ok t.stamp
  | none => .error .beyondCalendar

/-- The types whose messages are remembered. -/
def memorableTypes : List MessageType := MessageType.all.filter MessageType.isMemorable

/-- The text of a message for the memory. -/
def Message.memoryText (m : Message) : String :=
  "[" ++ m.type.name ++ "] " ++ m.sender ++ " -> " ++ m.recipient ++ ": " ++ m.payload

/-- The tags of a message for the memory. -/
def Message.memoryTags (m : Message) : List String :=
  ["agent-mail", m.type.name, m.sender] ++ if m.convoy = noConvoy then [] else [m.convoy]

variable {σ : Type}

/-! ### Steps -/

/-- One step of a pruning. -/
inductive PruneStep where
  | remember (m : Message)
  | archive
  | delete

/-- A pruning under way: the store, the surroundings of the memory, and what was done. -/
structure Pruning (σ : Type) where
  store : Store
  world : σ
  done : PruneOutcome

/-- The steps of a pruning that hands these messages to the memory. -/
def pruneCourse (calls : List Message) : List PruneStep :=
  calls.map .remember ++ [.archive, .delete]

namespace Pruning

/-- Nothing has been done yet. -/
def start (s : Store) (w : σ) : Pruning σ := ⟨s, w, ⟨0, 0, 0, 0⟩⟩

section

variable (recorder : Recorder σ) (cutoff time : String)

/-- Takes a step. The memory is handed one message, and nothing but its answer counts. -/
def step (p : Pruning σ) : PruneStep → Pruning σ
  | .remember m =>
    match recorder m.memoryText m.memoryTags p.world with
    | (.ok (), w) =>
      { p with world := w, done := { p.done with remembered := p.done.remembered + 1 } }
    | (.error _, w) =>
      { p with world := w, done := { p.done with failures := p.done.failures + 1 } }
  | .archive =>
    let (s, n) := p.store.archiveReadBefore cutoff time
    { p with store := s, done := { p.done with archived := p.done.archived + n } }
  | .delete =>
    let (s, n) := p.store.deleteArchivedBefore cutoff
    { p with store := s, done := { p.done with deleted := p.done.deleted + n } }

/-- Takes several steps. -/
def run (p : Pruning σ) (steps : List PruneStep) : Pruning σ :=
  steps.foldl (step recorder cutoff time) p

/-- The whole course of a pruning. -/
def whole (s : Store) (calls : List Message) (w : σ) : Pruning σ :=
  (start s w).run recorder cutoff time (pruneCourse calls)

end

end Pruning

/-! ### Reports and prunings -/

namespace Store

/-- What pruning would do. -/
def pruneReport (s : Store) (days : Nat) (now : Time.Instant) : Except Error PruneReport := do
  let cutoff ← cutoff days now
  let statistics ← s.statistics.mapError .storage
  return ⟨days, cutoff, statistics, s.countPrunable cutoff, s.countArchivable cutoff⟩

/-- The messages that a pruning hands to the memory, with its cutoff. -/
def memorable (s : Store) (days : Nat) (now : Time.Instant) :
    Except Error (String × List Message) := do
  let cutoff ← cutoff days now
  let messages ← (s.prunableOfTypes cutoff memorableTypes).mapError .storage
  return (cutoff, messages)

/-- Remembers, archives and deletes. -/
def prune (s : Store) (recorder : Recorder σ) (days : Nat) (now : Time.Instant) (w : σ) :
    Except Error PruneOutcome × Store × σ :=
  match s.memorable days now with
  | .error e => (.error e, s, w)
  | .ok (cutoff, messages) =>
    let p := Pruning.whole recorder cutoff now.stamp s messages w
    (.ok p.done, p.store, p.world)

end Store

end Mailroom
