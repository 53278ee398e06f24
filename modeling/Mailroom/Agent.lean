/-
The agents on the roster.

* `AgentStatus` — with `name` and `ofName?`;
* `Agent` — an entry of the roster.
-/
namespace Mailroom

/-- Whether an agent takes part. -/
inductive AgentStatus where
  | active
  | inactive
  deriving DecidableEq, Repr

namespace AgentStatus

/-- The name of a status. -/
def name : AgentStatus → String
  | active => "active"
  | inactive => "inactive"

/-- The status with this name. -/
def ofName? (s : String) : Option AgentStatus := [active, inactive].find? (·.name == s)

theorem ofName?_name (x : AgentStatus) : ofName? x.name = some x := by
  cases x <;> decide

theorem name_of_ofName? {s : String} {x : AgentStatus} (h : ofName? s = some x) : x.name = s := by
  have := List.find?_some h
  simpa using this

end AgentStatus

/-- An entry of the roster: where an agent works and when it was last heard of. -/
structure Agent where
  id : String
  role : String
  branch : Option String
  worktree : Option String
  status : AgentStatus
  registeredAt : String
  lastSeenAt : String
  deriving DecidableEq, Repr

end Mailroom
