/-
Messages in the store: adding, finding and marking them.

* `Transaction`, `transact`, `insert` — several messages in one transaction, all of them or none;
* `ingest` — one message, unless its id is stored already;
* `get?`, `inbox`, `counts` — what is stored;
* `markRead`, `markArchived` — the two steps forward in a message's life.

An agent's inbox holds what is addressed to the agent or to everyone and is not
archived: the most urgent first, then the latest, then by id downwards. Texts are
compared by code points.
-/
import Mailroom.Store.Basic

namespace Mailroom

namespace MessageRow

/-- Whether a row is addressed to an agent. -/
def isFor (r : MessageRow) (agent : String) : Bool :=
  r.recipient == agent || r.recipient == everyone

/-- Whether a row has a status. -/
def has (r : MessageRow) (status : MessageStatus) : Bool := r.status == status.name

/-- How far down a priority stands in an inbox. -/
def rank (r : MessageRow) : Nat :=
  if r.priority = Priority.high.name then 0 else if r.priority = Priority.normal.name then 1 else 2

/-- Whether a row stands before another one in an inbox, or at the same place. -/
def precedes (a b : MessageRow) : Bool :=
  a.rank < b.rank || (a.rank == b.rank &&
    (b.createdAt < a.createdAt || (a.createdAt == b.createdAt && b.id ≤ a.id)))

end MessageRow

/-- How many messages an inbox holds, and how many of them are unread. -/
structure InboxCounts where
  total : Nat
  unread : Nat
  deriving DecidableEq, Repr

namespace Store

/-- Whether a message with this id is stored. -/
def holds (s : Store) (id : String) : Bool := s.messages.any (·.id == id)

end Store

/-! ### Transactions -/

/-- A write that is under way: the store as all others see it, and as the writer does. -/
structure Transaction where
  committed : Store
  pending : Store
  deriving DecidableEq, Repr

namespace Transaction

/-- A transaction in which nothing has been written. -/
def start (s : Store) : Transaction := ⟨s, s⟩

/-- Writes one message, unless its id is taken. -/
def write (t : Transaction) (m : Message) : Except StorageFault Transaction :=
  if t.pending.holds m.id then .error .idTaken
  else .ok { t with pending := { t.pending with messages := t.pending.messages ++ [m.row] } }

/-- Writes messages up to the first that is refused, and says whether one was. -/
def writeAll : Transaction → List Message → Transaction × Option StorageFault
  | t, [] => (t, none)
  | t, m :: ms =>
    match t.write m with
    | .error e => (t, some e)
    | .ok t' => t'.writeAll ms

/-- What comes of a transaction: what is written counts only if nothing was refused. -/
def finish : Transaction × Option StorageFault → Except StorageFault Unit × Store
  | (t, none) => (.ok (), t.pending)
  | (t, some e) => (.error e, t.committed)

end Transaction

namespace Store

/-- Stores messages in one transaction. -/
def transact (s : Store) (ms : List Message) : Except StorageFault Unit × Store :=
  Transaction.finish ((Transaction.start s).writeAll ms)

/-- The store after a transaction in which nothing was refused. -/
def insert (s : Store) (ms : List Message) : Except StorageFault Store :=
  match s.transact ms with
  | (.error e, _) => .error e
  | (.ok (), s) => .ok s

/-! ### Messages by themselves -/

/-- The store with one more message unless its id is taken, and whether it was added. -/
def ingest (s : Store) (m : Message) : Store × Bool :=
  if s.holds m.id then (s, false) else ({ s with messages := s.messages ++ [m.row] }, true)

/-- The message with this id. -/
def get? (s : Store) (id : String) : Except StorageFault (Option Message) :=
  match s.messages.find? (·.id == id) with
  | none => .ok none
  | some r => (r.toMessage).map some

/-- The rows of an agent's inbox, in its order. -/
def inboxRows (s : Store) (agent : String) (unreadOnly : Bool) : List MessageRow :=
  (s.messages.filter fun r =>
    r.isFor agent && if unreadOnly then r.has .unread else !r.has .archived).mergeSort
      MessageRow.precedes

/-- An agent's inbox. -/
def inbox (s : Store) (agent : String) (unreadOnly : Bool) : Except StorageFault (List Message) :=
  (s.inboxRows agent unreadOnly).mapM MessageRow.toMessage

/-- The size of an agent's inbox. -/
def counts (s : Store) (agent : String) : InboxCounts :=
  let mine := s.messages.filter fun r => r.isFor agent && !r.has .archived
  ⟨mine.length, mine.countP (·.has .unread)⟩

/-- Changes the rows that satisfy a condition, and counts them. -/
def updateWhere (s : Store) (p : MessageRow → Bool) (f : MessageRow → MessageRow) : Store × Nat :=
  ({ s with messages := s.messages.map fun r => if p r then f r else r }, s.messages.countP p)

/-- Drops the rows that satisfy a condition, and counts by how many rows there are fewer. -/
def deleteWhere (s : Store) (p : MessageRow → Bool) : Store × Nat :=
  let kept := s.messages.filter (!p ·)
  ({ s with messages := kept }, s.messages.length - kept.length)

/-- Marks an unread message as read, and says whether there was one. -/
def markRead (s : Store) (id time : String) : Store × Bool :=
  let (s, n) := s.updateWhere (fun r => r.id == id && r.has .unread)
    fun r => { r with status := MessageStatus.read.name, readAt := some time }
  (s, 0 < n)

/-- Archives a message that is not archived, and says whether there was one. -/
def markArchived (s : Store) (id time : String) : Store × Bool :=
  let (s, n) := s.updateWhere (fun r => r.id == id && !r.has .archived)
    fun r => { r with status := MessageStatus.archived.name, archivedAt := some time }
  (s, 0 < n)

end Store

end Mailroom
