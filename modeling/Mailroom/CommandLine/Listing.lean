/-
What the program prints.

Each function gives the lines for one kind of result; `report` ends every line.

* `Inbox.listing`, `Message.listing`, `agentListing` — for people;
* `Inbox.toValue` — for programs.
-/
import Mailroom.Json.Mail
import Mailroom.Mailbox.Arrival
import Mailroom.Mailbox.Inbox
import Mailroom.Mailbox.Posting
import Mailroom.Mailbox.Pruning
import Mailroom.Legacy.Import

namespace Mailroom

/-- Lines as a text in which every line is ended. -/
def report (lines : List String) : String := String.join (lines.map (· ++ "\n"))

/-- A text with blanks after it up to a width. -/
def padRight (width : Nat) (s : String) : String :=
  s ++ String.ofList (List.replicate (width - s.length) ' ')

/-! ### Messages -/

/-- How a status is marked in a list. -/
def MessageStatus.mark : MessageStatus → String
  | unread => "*"
  | read => " "
  | archived => "a"

/-- How many characters of a payload are shown in a list. -/
def previewLength : Nat := 60

/-- The beginning of a payload: of its first line, at most so many characters. -/
def preview (payload : String) : String :=
  String.ofList (((Text.lines payload.toList).headD []).take previewLength)

/-- A message on one line. -/
def Message.line (m : Message) : String :=
  m.status.mark ++ " [" ++ m.priority.name ++ "] " ++ m.id ++ "  " ++ m.sender ++ " -> " ++
    m.recipient ++ "  " ++ m.type.name ++ "  " ++ preview m.payload

/-- A message with its payload. -/
def Message.listing (m : Message) : List String :=
  ["ID:       " ++ m.id, "From:     " ++ m.sender, "To:       " ++ m.recipient,
    "Type:     " ++ m.type.name, "Priority: " ++ m.priority.name, "Convoy:   " ++ m.convoy,
    "Status:   " ++ m.status.name, "Created:  " ++ m.createdAt, "", m.payload]

/-- An inbox, a message a line. -/
def Inbox.listing (x : Inbox) : List String :=
  ("Inbox for " ++ x.agentId ++ " (" ++ toString x.total ++ " message(s), " ++
      toString x.unread ++ " unread)") ::
    if x.messages.isEmpty then ["  (empty)"] else x.messages.map fun m => "  " ++ m.line

/-- The record of an inbox. -/
def Inbox.toValue (x : Inbox) : Json.Value :=
  .object [("agent_id", .text x.agentId), ("messages", .list (x.messages.map Message.toValue)),
    ("total", .count x.total), ("unread", .count x.unread)]

/-- What came of sending. -/
def Sent.listing (x : Sent) : List String :=
  x.ids ++ x.relays.map fun r =>
    match r.failure with
    | none => "  relayed via " ++ r.transport
    | some reason => "  relay via " ++ r.transport ++ " failed: " ++ reason

/-! ### Agents -/

/-- An agent on one line. -/
def Agent.line (a : Agent) : String :=
  "  " ++ a.id ++ " [" ++ a.status.name ++ "] role=" ++ a.role ++ " branch=" ++
    a.branch.getD "-" ++ " last_seen=" ++ a.lastSeenAt

/-- The roster, an agent a line. -/
def agentListing (agents : List Agent) : List String :=
  "Agents:" :: if agents.isEmpty then ["  (none)"] else agents.map Agent.line

/-! ### Receiving -/

/-- What came of polling one transport. -/
def PollResult.line (name : String) : PollResult → String
  | skipped => "  " ++ name ++ ": nothing to poll"
  | polled fetched ingested =>
    "  " ++ name ++ ": " ++ toString fetched ++ " envelope(s), " ++ toString ingested ++ " new"
  | failed reason => "  " ++ name ++ ": failed: " ++ reason

/-- The number of new messages. -/
def Receipt.summary (x : Receipt) : String := "Received " ++ toString x.ingested ++ " new message(s)"

/-- What came of polling each transport. -/
def Receipt.listing (x : Receipt) : List String :=
  (x.transports.map fun (name, result) => result.line name) ++ [x.summary]

/-- What is said of a pass of a watch: nothing unless it brought something. -/
def Receipt.watchListing (x : Receipt) : List String :=
  if 0 < x.ingested then [x.summary] else []

/-- A transport on one line. -/
def Transport.line {σ : Type} (t : Transport σ) (w : σ) : String :=
  "  " ++ padRight 8 t.name ++ " " ++
    padRight 12 (if t.available w then "available" else "unavailable") ++ " receive=" ++
    padRight 3 (if t.canReceive w then "yes" else "no") ++ " " ++ t.describe w

/-- What came of taking over a legacy mailbox. -/
def Import.line (x : Import) (folder : String) : String :=
  "Imported " ++ toString x.imported ++ " message(s) from " ++ folder ++ " (" ++
    toString x.duplicates ++ " already present, " ++ toString x.skipped ++ " skipped)"

/-! ### The store -/

/-- What pruning would do, for a store of so many bytes. -/
def PruneReport.listing (x : PruneReport) (bytes : Nat) : List String :=
  let s := x.statistics
  ["Mailbox: " ++ toString s.total ++ " message(s)",
    "  unread=" ++ toString s.unread ++ " read=" ++ toString s.read ++ " archived=" ++
      toString s.archived] ++
  (s.byType.map fun (type, n) => "  " ++ type ++ ": " ++ toString n) ++
  (match s.oldest, s.newest with
    | some oldest, some newest => ["  oldest " ++ oldest ++ "  newest " ++ newest]
    | _, _ => []) ++
  ["Threshold: " ++ toString x.days ++ " day(s) (before " ++ x.cutoff ++ ")",
    "  prunable (archived): " ++ toString x.prunable,
    "  archivable (read):   " ++ toString x.archivable,
    "  database size: " ++ toString bytes ++ " bytes"]

/-- What pruning did, with the bytes of the store before and after it. -/
def PruneOutcome.listing (x : PruneOutcome) (before after : Nat) : List String :=
  ["", "Remembered " ++ toString x.remembered ++ " message(s)"] ++
  (if 0 < x.failures then
    ["  " ++ toString x.failures ++ " could not be recorded (see log)"] else []) ++
  ["Auto-archived " ++ toString x.archived ++ " read message(s)",
    "Deleted " ++ toString x.deleted ++ " archived message(s)",
    "Database size: " ++ toString before ++ " -> " ++ toString after ++ " bytes"]

/-- An overview of a mailbox whose store takes so many bytes. -/
def Status.listing (x : Status) (file : Option String) (bytes : Nat) (selector : Selector) :
    List String :=
  let s := x.statistics
  ["Agent:     " ++ x.agentId,
    match file with
    | some path => "Database:  " ++ path ++ " (" ++ toString bytes ++ " bytes)"
    | none => "Database:  (in memory)",
    "Transport: " ++ selector.name, "",
    "Inbox: " ++ toString x.inbox.total ++ " message(s), " ++ toString x.inbox.unread ++ " unread",
    "Store: total=" ++ toString s.total ++ " unread=" ++ toString s.unread ++ " read=" ++
      toString s.read ++ " archived=" ++ toString s.archived,
    "Active agents: " ++ toString x.activeAgents]

end Mailroom
