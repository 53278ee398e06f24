/-
Messages between agents.

A message has a type, a priority and a status, each known by a name; it goes from
one agent to another agent or to everyone. The status only moves forward, from
unread over read to archived.

* `MessageType`, `Priority`, `MessageStatus` — with `name` and `ofName?`;
* `ofName?_name` for each of them — a name stands for exactly one value;
* `Message` — a stored message.
-/
namespace Mailroom

/-- The recipient that stands for every agent. -/
def everyone : String := "all"

/-- The convoy of a message that belongs to none. -/
def noConvoy : String := "none"

/-! ### Types -/

/-- What a message is about. -/
inductive MessageType where
  /-- work handed from one agent to another -/
  | taskDispatch
  /-- a report of progress or completion -/
  | statusReport
  /-- something worth remembering -/
  | discovery
  /-- a question that expects an answer -/
  | request
  /-- a message for every active agent -/
  | broadcast
  deriving DecidableEq, Repr

namespace MessageType

/-- All types, in the order in which they are listed. -/
def all : List MessageType := [taskDispatch, statusReport, discovery, request, broadcast]

/-- The name of a type. -/
def name : MessageType → String
  | taskDispatch => "task_dispatch"
  | statusReport => "status_report"
  | discovery => "discovery"
  | request => "request"
  | broadcast => "broadcast"

/-- The type with this name. -/
def ofName? (s : String) : Option MessageType := all.find? (·.name == s)

theorem ofName?_name (t : MessageType) : ofName? t.name = some t := by
  cases t <;> decide

theorem name_of_ofName? {s : String} {t : MessageType} (h : ofName? s = some t) : t.name = s := by
  have := List.find?_some h
  simpa using this

theorem name_injective {t u : MessageType} (h : t.name = u.name) : t = u := by
  have hsome : some t = some u := by rw [← ofName?_name t, h, ofName?_name]
  exact Option.some.inj hsome

/-- Whether messages of this type are handed to the memory before they are deleted. -/
def isMemorable : MessageType → Bool
  | discovery | statusReport => true
  | _ => false

end MessageType

/-! ### Priorities -/

/-- How urgent a message is. -/
inductive Priority where
  | high
  | normal
  | low
  deriving DecidableEq, Repr

namespace Priority

/-- The name of a priority. -/
def name : Priority → String
  | high => "high"
  | normal => "normal"
  | low => "low"

/-- The priority with this name. -/
def ofName? (s : String) : Option Priority := [high, normal, low].find? (·.name == s)

theorem ofName?_name (p : Priority) : ofName? p.name = some p := by
  cases p <;> decide

theorem name_of_ofName? {s : String} {p : Priority} (h : ofName? s = some p) : p.name = s := by
  have := List.find?_some h
  simpa using this

theorem name_injective {p q : Priority} (h : p.name = q.name) : p = q := by
  have hsome : some p = some q := by rw [← ofName?_name p, h, ofName?_name]
  exact Option.some.inj hsome

end Priority

/-! ### Statuses -/

/-- Where a message is in its life. -/
inductive MessageStatus where
  | unread
  | read
  | archived
  deriving DecidableEq, Repr

namespace MessageStatus

/-- The name of a status. -/
def name : MessageStatus → String
  | unread => "unread"
  | read => "read"
  | archived => "archived"

/-- The status with this name. -/
def ofName? (s : String) : Option MessageStatus := [unread, read, archived].find? (·.name == s)

theorem ofName?_name (x : MessageStatus) : ofName? x.name = some x := by
  cases x <;> decide

theorem name_of_ofName? {s : String} {x : MessageStatus} (h : ofName? s = some x) :
    x.name = s := by
  have := List.find?_some h
  simpa using this

theorem name_injective {x y : MessageStatus} (h : x.name = y.name) : x = y := by
  have hsome : some x = some y := by rw [← ofName?_name x, h, ofName?_name]
  exact Option.some.inj hsome

end MessageStatus

/-- A message as it is stored: who wrote what to whom, and what has become of it. -/
structure Message where
  id : String
  sender : String
  recipient : String
  type : MessageType
  priority : Priority
  convoy : String
  payload : String
  status : MessageStatus
  createdAt : String
  readAt : Option String
  archivedAt : Option String
  deriving DecidableEq, Repr

end Mailroom
