/-
The inbox and the life of a message.

* `Mailbox.check` — the inbox of an agent;
* `Store.read` — shows a message, and marks it as read if it was unread;
* `Store.archive` — archives a message that is not archived yet.

Reading and archiving consist of single steps on the store, which other agents may
come in between of: a look at the message, a change that is made only if the status
still allows for it, and another look.
-/
import Mailroom.Mailbox.Basic

namespace Mailroom

/-- An agent's inbox with its size; the messages may be the unread ones only. -/
structure Inbox where
  agentId : String
  messages : List Message
  total : Nat
  unread : Nat
  deriving DecidableEq, Repr

namespace Store

/-- The message with this id, which has to be there. -/
def require (s : Store) (id : String) : Except Error Message :=
  match s.get? id with
  | .error e => .error (.storage e)
  | .ok none => .error (.notFound (.message id))
  | .ok (some m) => .ok m

/-- Shows a message, and marks it as read if it was unread. -/
def read (s : Store) (id time : String) : Except Error Message × Store :=
  match s.require id with
  | .error e => (.error e, s)
  | .ok m =>
    if m.status = .unread then
      let (s, _) := s.markRead id time
      (s.require id, s)
    else (.ok m, s)

/-- Archives a message that is not archived yet. -/
def archive (s : Store) (id time : String) : Except Error Message × Store :=
  match s.require id with
  | .error e => (.error e, s)
  | .ok m =>
    if m.status = .archived then (.error (.alreadyArchived id), s)
    else
      match s.markArchived id time with
      | (s, true) => (s.require id, s)
      | (s, false) => (.error (.alreadyArchived id), s)

/-- The inbox of an agent. -/
def check (s : Store) (agent : String) (unreadOnly : Bool) : Except Error Inbox := do
  let messages ← (s.inbox agent unreadOnly).mapError .storage
  let counts := s.counts agent
  return ⟨agent, messages, counts.total, counts.unread⟩

end Store

/-- The inbox of an agent, by default of the mailbox's own. -/
def Mailbox.check {σ : Type} (b : Mailbox σ) (agent : Option String) (unreadOnly : Bool)
    (s : Store) : Except Error Inbox :=
  s.check (agent.getD b.identity.agentId) unreadOnly

end Mailroom
