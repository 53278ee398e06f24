/-
Mailboxes.

A mailbox joins an agent's identity with the transports that it can use. The store is
not a part of it: many mailboxes may work on one store, and every operation takes the
store as it is and gives the store as it becomes.

* `Mailbox` — identity, transports and where the store is kept;
* `Mailbox.status` — an overview of mailbox and store.
-/
import Mailroom.Error
import Mailroom.Identity
import Mailroom.Store.Document
import Mailroom.Store.Messages
import Mailroom.Store.Roster
import Mailroom.Store.Statistics
import Mailroom.Transport.Basic

namespace Mailroom

/-- An agent's access to a store and to other machines. -/
structure Mailbox (σ : Type) where
  identity : Identity
  registry : Registry σ
  /-- the transports that are meant where none are named -/
  selector : Selector
  /-- the file of the store, unless it is kept in memory only -/
  file : Option String

/-- An overview of a mailbox and its store. -/
structure Status where
  agentId : String
  inbox : InboxCounts
  statistics : Statistics
  activeAgents : Nat
  deriving DecidableEq, Repr

namespace Mailbox

variable {σ : Type}

/-- The number of bytes in the file of the store. -/
def bytes (b : Mailbox σ) (s : Store) : Nat :=
  match b.file with
  | some _ => s.size
  | none => 0

/-- The overview of a mailbox and its store. -/
def status (b : Mailbox σ) (s : Store) : Except Error Status := do
  let statistics ← s.statistics.mapError .storage
  let active ← (s.agents true).mapError .storage
  return ⟨b.identity.agentId, s.counts b.identity.agentId, statistics, active.length⟩

end Mailbox

end Mailroom
