/-
The written form of a store.

A store is kept in a file as a JSON document: the version of the schema, the messages
and the roster, a row being the list of its columns. A table that a file does not have
is written as `null`.

* `Database.render` — the document of a database;
* `Database.ofText?` — the database in a document;
* `Store.size` — how many bytes a store takes.
-/
import Mailroom.Json.Reader
import Mailroom.Store.Basic

namespace Mailroom

open Json

/-- The columns of a message. -/
def MessageRow.toValue (r : MessageRow) : Value :=
  .list [.text r.id, .text r.sender, .text r.recipient, .text r.type, .text r.priority,
    .text r.convoy, .text r.payload, .text r.status, .text r.createdAt, .ofText? r.readAt,
    .ofText? r.archivedAt]

/-- The columns of an agent. -/
def AgentRow.toValue (r : AgentRow) : Value :=
  .list [.text r.id, .text r.role, .ofText? r.branch, .ofText? r.worktree, .text r.status,
    .text r.registeredAt, .text r.lastSeenAt]

/-- A column that may be missing. -/
def textColumn? : Value → Option (Option String)
  | .null => some none
  | .text s => some (some s)
  | _ => none

/-- The message with these columns. -/
def MessageRow.ofValue? : Value → Option MessageRow
  | .list [.text id, .text sender, .text recipient, .text type, .text priority, .text convoy,
      .text payload, .text status, .text createdAt, readAt, archivedAt] => do
    some ⟨id, sender, recipient, type, priority, convoy, payload, status, createdAt,
      ← textColumn? readAt, ← textColumn? archivedAt⟩
  | _ => none

/-- The agent with these columns. -/
def AgentRow.ofValue? : Value → Option AgentRow
  | .list [.text id, .text role, branch, worktree, .text status, .text registeredAt,
      .text lastSeenAt] => do
    some ⟨id, role, ← textColumn? branch, ← textColumn? worktree, status, registeredAt, lastSeenAt⟩
  | _ => none

/-- A table, or nothing for one that is missing. -/
def tableToValue {α : Type} (write : α → Value) : Option (List α) → Value
  | none => .null
  | some rows => .list (rows.map write)

/-- The table in a value. -/
def tableOfValue? {α : Type} (read : Value → Option α) : Value → Option (Option (List α))
  | .null => some none
  | .list items => (items.mapM read).map some
  | _ => none

namespace Database

/-- The document of a database as a value. -/
def toValue (d : Database) : Value :=
  .object [("version", .integer d.version),
    ("messages", tableToValue MessageRow.toValue d.messages),
    ("agents", tableToValue AgentRow.toValue d.roster)]

/-- The database that a value describes. -/
def ofValue? : Value → Option Database
  | .object [("version", .integer version), ("messages", messages), ("agents", roster)] => do
    some ⟨← tableOfValue? MessageRow.ofValue? messages, ← tableOfValue? AgentRow.ofValue? roster,
      version⟩
  | _ => none

/-- The document of a database. -/
def render (d : Database) : String := d.toValue.compact ++ "\n"

/-- The database in a document. -/
def ofText? (text : String) : Option Database :=
  match Value.parse text with
  | .ok v => ofValue? v
  | .error _ => none

end Database

/-- The number of bytes that a store takes in its file. -/
def Store.size (s : Store) : Nat := s.database.render.utf8ByteSize

end Mailroom
