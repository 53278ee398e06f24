/-
Joining and leaving the roster.

* `Mailbox.register` — enters an agent into the roster, or refreshes its entry;
* `Mailbox.deregister` — makes an agent inactive.

What is blank or not given is taken from the mailbox's identity.
-/
import Mailroom.Mailbox.Basic

namespace Mailroom

/-- What an agent says about itself. -/
structure Registration where
  id : Option String
  role : Option String
  branch : Option String
  worktree : Option String
  deriving DecidableEq, Repr

/-- The role of an agent that does not name one. -/
def defaultRole : String := "worker"

/-- Whether an id can stand on the roster: it can travel, and does not mean everyone. -/
def isEnrollable (id : String) : Bool := id != everyone && isWireSafe id

/-- The agent with this id, which has to be there. -/
def Store.requireAgent (s : Store) (id : String) : Except Error Agent :=
  match s.agent? id with
  | .error e => .error (.storage e)
  | .ok none => .error (.notFound (.agent id))
  | .ok (some a) => .ok a

namespace Mailbox

variable {σ : Type}

/-- The id that is meant: the one given, or the mailbox's own. -/
def idOr (b : Mailbox σ) (given : Option String) : String :=
  (Text.nonBlank? given).getD b.identity.agentId

/-- Enters an agent into the roster. -/
def register (b : Mailbox σ) (r : Registration) (time : String) (s : Store) :
    Except Error Agent × Store :=
  let id := b.idOr r.id
  if isEnrollable id then
    let s := s.register id ((Text.nonBlank? r.role).getD defaultRole)
      ((Text.nonBlank? r.branch).or b.identity.branch)
      ((Text.nonBlank? r.worktree).or b.identity.worktree) time
    (s.requireAgent id, s)
  else (.error (.input (.badAgentId id)), s)

/-- Makes an agent inactive. -/
def deregister (b : Mailbox σ) (given : Option String) (time : String) (s : Store) :
    Except Error Agent × Store :=
  let id := b.idOr given
  match s.setStatus id .inactive time with
  | (s, true) => (s.requireAgent id, s)
  | (s, false) => (.error (.notFound (.agent id)), s)

end Mailbox

end Mailroom
