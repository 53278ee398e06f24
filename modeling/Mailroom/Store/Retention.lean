/-
Old messages in the store.

A message is prunable when it was archived before a cutoff, and archivable when it
was read before it; a read message without a time of reading counts by its
creation. Time stamps are compared as texts.

* `countPrunable`, `countArchivable` — how many there are;
* `prunableOfTypes` — the prunable messages of some types, oldest first;
* `archiveReadBefore`, `deleteArchivedBefore` — the two steps of pruning.
-/
import Mailroom.Store.Messages

namespace Mailroom

namespace MessageRow

/-- Whether a message may be deleted. -/
def isPrunable (cutoff : String) (r : MessageRow) : Bool :=
  r.has .archived && r.archivedAt.any (· < cutoff)

/-- Whether a message may be archived. -/
def isArchivable (cutoff : String) (r : MessageRow) : Bool :=
  r.has .read && r.readAt.getD r.createdAt < cutoff

end MessageRow

namespace Store

/-- The number of messages archived before the cutoff. -/
def countPrunable (s : Store) (cutoff : String) : Nat := s.messages.countP (·.isPrunable cutoff)

/-- The number of messages read before the cutoff. -/
def countArchivable (s : Store) (cutoff : String) : Nat :=
  s.messages.countP (·.isArchivable cutoff)

/-- The rows archived before the cutoff, oldest first, those of one time in the order
in which they were added. -/
def prunableRows (s : Store) (cutoff : String) : List MessageRow :=
  (s.messages.filter (·.isPrunable cutoff)).mergeSort fun a b =>
    a.archivedAt.getD "" ≤ b.archivedAt.getD ""

/-- The messages of the given types that were archived before the cutoff, oldest first.
Every prunable row has to stand for a message, whatever its type. -/
def prunableOfTypes (s : Store) (cutoff : String) (types : List MessageType) :
    Except StorageFault (List Message) := do
  let all ← (s.prunableRows cutoff).mapM MessageRow.toMessage
  return all.filter fun m => types.contains m.type

/-- Archives the messages that were read before the cutoff, and counts them. -/
def archiveReadBefore (s : Store) (cutoff time : String) : Store × Nat :=
  s.updateWhere (·.isArchivable cutoff)
    fun r => { r with status := MessageStatus.archived.name, archivedAt := some time }

/-- Deletes the messages that were archived before the cutoff, and counts them. -/
def deleteArchivedBefore (s : Store) (cutoff : String) : Store × Nat :=
  s.deleteWhere (·.isPrunable cutoff)

end Store

end Mailroom
