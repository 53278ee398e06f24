/-
The mailbox store.

The store holds messages and agents as rows of texts. Rows written by this program
stand for values; rows of an old file may hold any text, and reading such a row is
refused at the column that stands for nothing. Rows keep the order in which they
were added.

* `MessageRow.toMessage`, `AgentRow.toAgent` — what a row stands for;
* `Message.row`, `Agent.row` — the row of a value;
* `toMessage_row`, `toAgent_row` — the row of a value stands for that value;
* `Database.Stage`, `Database.upgrade` — a file of any release, brought to the present schema
  stage by stage;
* `upgrade_eq` — what the stages come to.
-/
import Mailroom.Names

namespace Mailroom

/-- A stored message: texts, of which the last two may be missing. -/
structure MessageRow where
  id : String
  sender : String
  recipient : String
  type : String
  priority : String
  convoy : String
  payload : String
  status : String
  createdAt : String
  readAt : Option String
  archivedAt : Option String
  deriving DecidableEq, Repr

/-- A stored agent. -/
structure AgentRow where
  id : String
  role : String
  branch : Option String
  worktree : Option String
  status : String
  registeredAt : String
  lastSeenAt : String
  deriving DecidableEq, Repr

/-! ### Rows and values -/

/-- The value of a column, where a text that stands for nothing is a fault of the store. -/
def column {α : Type} (index : Nat) (parse : String → Except InputFault α) (text : String) :
    Except StorageFault α :=
  (parse text).mapError (.badColumn index)

/-- The message that a row stands for. Type, priority and status are checked in this
order. -/
def MessageRow.toMessage (r : MessageRow) : Except StorageFault Message := do
  let type ← column 3 MessageType.parse r.type
  let priority ← column 4 Priority.parse r.priority
  let status ← column 7 MessageStatus.parse r.status
  return ⟨r.id, r.sender, r.recipient, type, priority, r.convoy, r.payload, status, r.createdAt,
    r.readAt, r.archivedAt⟩

/-- The row of a message. -/
def Message.row (m : Message) : MessageRow :=
  ⟨m.id, m.sender, m.recipient, m.type.name, m.priority.name, m.convoy, m.payload, m.status.name,
    m.createdAt, m.readAt, m.archivedAt⟩

/-- The agent that a row stands for. -/
def AgentRow.toAgent (r : AgentRow) : Except StorageFault Agent := do
  let status ← column 4 AgentStatus.parse r.status
  return ⟨r.id, r.role, r.branch, r.worktree, status, r.registeredAt, r.lastSeenAt⟩

/-- The row of an agent. -/
def Agent.row (a : Agent) : AgentRow :=
  ⟨a.id, a.role, a.branch, a.worktree, a.status.name, a.registeredAt, a.lastSeenAt⟩

theorem toMessage_row (m : Message) : m.row.toMessage = .ok m := by
  simp only [Message.row, MessageRow.toMessage, column, MessageType.parse, Priority.parse,
    MessageStatus.parse, named, MessageType.ofName?_name, Priority.ofName?_name,
    MessageStatus.ofName?_name]
  rfl

theorem toAgent_row (a : Agent) : a.row.toAgent = .ok a := by
  simp only [Agent.row, AgentRow.toAgent, column, AgentStatus.parse, named,
    AgentStatus.ofName?_name]
  rfl

/-! ### The store and the files it comes from -/

/-- Messages, agents and the version of the schema. -/
structure Store where
  messages : List MessageRow
  roster : List AgentRow
  version : Int
  deriving DecidableEq, Repr

/-- What a database file of any release holds: a table may be missing. -/
structure Database where
  messages : Option (List MessageRow)
  roster : Option (List AgentRow)
  version : Int
  deriving DecidableEq, Repr

/-- The version of the present schema: 1 had messages only, 2 added the roster. -/
def schemaVersion : Int := 2

namespace Database

/-- A file that holds nothing yet. -/
def blank : Database := ⟨none, none, 0⟩

/-- What it takes to bring a file to the present schema. -/
inductive Stage where
  | messages
  | roster
  | version
  deriving DecidableEq, Repr

namespace Stage

/-- The stages in their order. -/
def all : List Stage := [messages, roster, version]

/-- The file after a stage: a missing table is made, and an earlier version raised. -/
def run : Stage → Database → Database
  | messages, d => if d.messages.isNone then { d with messages := some [] } else d
  | roster, d => if d.roster.isNone then { d with roster := some [] } else d
  | version, d => if d.version < schemaVersion then { d with version := schemaVersion } else d

/-- The file after some stages. -/
def runAll (stages : List Stage) (d : Database) : Database :=
  stages.foldl (fun d stage => stage.run d) d

end Stage

/-- The store in a file that has gone through all stages. -/
def upgrade (d : Database) : Store :=
  let d := Stage.runAll Stage.all d
  ⟨d.messages.getD [], d.roster.getD [], d.version⟩

/-- Missing tables are added, rows are kept, and the version is never lowered. -/
theorem upgrade_eq (d : Database) :
    d.upgrade = ⟨d.messages.getD [], d.roster.getD [], max schemaVersion d.version⟩ := by
  obtain ⟨ms, agents, v⟩ := d
  have hversion : (if v < schemaVersion then schemaVersion else v) = max schemaVersion v := by
    omega
  have hrun : Stage.runAll Stage.all ⟨ms, agents, v⟩ =
      ⟨some (ms.getD []), some (agents.getD []), max schemaVersion v⟩ := by
    rw [← hversion]
    cases ms <;> cases agents <;> simp only [Stage.runAll, Stage.all, Stage.run, List.foldl_cons,
      List.foldl_nil, Option.isNone_none, Option.isNone_some, Option.getD_none, Option.getD_some,
      if_true, Bool.false_eq_true, if_false] <;> split <;> rfl
  rw [upgrade, hrun]
  rfl

end Database

namespace Store

/-- A new store. -/
def empty : Store := Database.blank.upgrade

/-- The file that holds a store. -/
def database (s : Store) : Database := ⟨some s.messages, some s.roster, s.version⟩

end Store

end Mailroom
