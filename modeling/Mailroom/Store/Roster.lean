/-
The roster in the store.

* `register` — adds an agent or refreshes its entry; the time of the first
  registration is kept;
* `setStatus` — changes the status of an agent that is there;
* `agent?`, `agents`, `activeExcept` — the entries: all of them in the order in which
  they were last seen, the latest first, and of one time by id; the ids of the active
  ones by id.
-/
import Mailroom.Store.Basic

namespace Mailroom

/-- Whether an entry is listed before another one, or at the same place. -/
def AgentRow.precedes (a b : AgentRow) : Bool :=
  b.lastSeenAt < a.lastSeenAt || (a.lastSeenAt == b.lastSeenAt && a.id ≤ b.id)

/-- Whether an entry is active. -/
def AgentRow.isActive (r : AgentRow) : Bool := r.status == AgentStatus.active.name

namespace Store

/-- Whether there is an entry for this id. -/
def knows (s : Store) (id : String) : Bool := s.roster.any (·.id == id)

/-- The store in which an agent is registered, active and just seen. -/
def register (s : Store) (id role : String) (branch worktree : Option String) (time : String) :
    Store :=
  if s.knows id then
    { s with roster := s.roster.map fun r =>
        if r.id = id then ⟨r.id, role, branch, worktree, AgentStatus.active.name, r.registeredAt, time⟩
        else r }
  else
    { s with roster := s.roster ++ [⟨id, role, branch, worktree, AgentStatus.active.name, time, time⟩] }

/-- The store in which an agent has a status and was just seen, and whether it is known. -/
def setStatus (s : Store) (id : String) (status : AgentStatus) (time : String) : Store × Bool :=
  ({ s with roster := s.roster.map fun r =>
      if r.id = id then { r with status := status.name, lastSeenAt := time } else r }, s.knows id)

/-- The agent with this id. -/
def agent? (s : Store) (id : String) : Except StorageFault (Option Agent) :=
  match s.roster.find? (·.id == id) with
  | none => .ok none
  | some r => r.toAgent.map some

/-- The agents, the latest seen first. -/
def agents (s : Store) (activeOnly : Bool) : Except StorageFault (List Agent) :=
  ((s.roster.filter fun r => !activeOnly || r.isActive).mergeSort AgentRow.precedes).mapM
    AgentRow.toAgent

/-- The ids of the active agents but one, in order. -/
def activeExcept (s : Store) (id : String) : List String :=
  ((s.roster.filter fun r => r.isActive && r.id != id).map (·.id)).mergeSort fun a b => a ≤ b

end Store

end Mailroom
