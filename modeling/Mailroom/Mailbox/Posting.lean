/-
Sending.

A draft is checked, its messages are stored together, and then one envelope is relayed
through every transport that is meant. A refusal leaves the store as it is and asks no
transport; a transport that fails is noted and changes nothing else.

* `Mailbox.post` — the part that concerns the store;
* `Mailbox.send` — the whole of it.
-/
import Mailroom.Mailbox.Basic
import Mailroom.Mailbox.Draft

namespace Mailroom

/-- What came of sending: the ids of the stored messages, and of each transport whether it
took the envelope. -/
structure Sent where
  ids : List String
  relays : List Relay
  deriving DecidableEq, Repr

namespace Mailbox

variable {σ : Type}

/-- Stores the messages of a draft in one transaction, and gives its letter with them. -/
def post (b : Mailbox σ) (d : Draft) (time : String) (ids : Nat → String) (s : Store) :
    Except Error (Letter × List Message) × Store :=
  match d.check b.identity.agentId b.selector with
  | .error e => (.error (.input e), s)
  | .ok letter =>
    let messages := letter.messages s time ids
    match s.transact messages with
    | (.error e, s) => (.error (.storage e), s)
    | (.ok (), s) => (.ok (letter, messages), s)

/-- Stores the messages of a draft and relays its envelope. -/
def send (b : Mailbox σ) (d : Draft) (time : String) (ids : Nat → String) (s : Store) (w : σ) :
    Except Error Sent × Store × σ :=
  match b.post d time ids s with
  | (.error e, s) => (.error e, s, w)
  | (.ok (letter, messages), s) =>
    let (relays, w) := b.registry.relay letter.selector (letter.envelope ids) w
    (.ok ⟨messages.map (·.id), relays⟩, s, w)

end Mailbox

end Mailroom
