/-
Drafts and letters.

A draft is what somebody wants to send, in the words of the user. Checking a draft
gives a letter, in which everything is filled in and can travel.

* `Draft.check` — the letter of a draft, or the first thing that is wrong with it;
* `Letter.recipients` — to whom a letter is stored: a broadcast goes to every other
  active agent, and to everyone if there is none;
* `Letter.messages` — the messages of a letter;
* `Letter.envelope` — what is relayed: one envelope, for everyone if the letter is a
  broadcast.
-/
import Mailroom.Envelope
import Mailroom.Names
import Mailroom.Store.Roster

namespace Mailroom

/-- What somebody wants to send. -/
structure Draft where
  recipient : Option String
  type : Option String
  payload : Option String
  priority : Option String
  convoy : Option String
  sender : Option String
  transport : Option String
  deriving DecidableEq, Repr

/-- A draft in which everything is filled in. -/
structure Letter where
  recipient : String
  sender : String
  type : MessageType
  priority : Priority
  convoy : String
  payload : String
  selector : Selector
  deriving DecidableEq, Repr

/-! ### Checking -/

/-- The text of an option that has to be given, without the blanks around it. -/
def requireText (name : String) (value : Option String) : Except InputFault String :=
  match Text.nonBlank? value with
  | some text => .ok text
  | none => .error (.missingOption name)

/-- The value of a name, or a default if the name is blank or not given. -/
def namedOr {α : Type} (default : α) (parse : String → Except InputFault α)
    (value : Option String) : Except InputFault α :=
  match Text.nonBlank? value with
  | some text => parse text
  | none => .ok default

/-- Refuses a field that cannot travel. -/
def requireWireSafe (name field : String) : Except InputFault Unit :=
  if isWireSafe field then .ok () else .error (.unsafeField name)

namespace Draft

/-- The payload, which has to be given and may be blank but not empty. -/
def checkedPayload (d : Draft) : Except InputFault String :=
  match d.payload.filter (!·.isEmpty) with
  | some text => .ok text
  | none => .error (.missingOption "payload")

/-- The letter of a draft, where `self` sends it through `default` unless the draft says
otherwise. -/
def check (d : Draft) (self : String) (default : Selector) : Except InputFault Letter := do
  let recipient ← requireText "to" d.recipient
  let type ← MessageType.parse (← requireText "type" d.type)
  let payload ← d.checkedPayload
  let priority ← namedOr .normal Priority.parse d.priority
  let convoy := (Text.nonBlank? d.convoy).getD noConvoy
  let sender := (Text.nonBlank? d.sender).getD self
  let selector ← namedOr default Selector.parse d.transport
  requireWireSafe "to" recipient
  requireWireSafe "from" sender
  requireWireSafe "convoy" convoy
  return ⟨recipient, sender, type, priority, convoy, payload, selector⟩

end Draft

/-! ### Letters -/

namespace Letter

/-- Whether a letter goes to every active agent. -/
def isBroadcast (l : Letter) : Bool := l.recipient == everyone || l.type == .broadcast

/-- To whom a letter is stored. -/
def recipients (l : Letter) (s : Store) : List String :=
  if l.isBroadcast then
    match s.activeExcept l.sender with
    | [] => [everyone]
    | others => others
  else [l.recipient]

/-- The message of a letter for one recipient. -/
def message (l : Letter) (time id recipient : String) : Message :=
  ⟨id, l.sender, recipient, l.type, l.priority, l.convoy, l.payload, .unread, time, none, none⟩

/-- The messages of a letter; the `i`-th one has the id `ids i`. -/
def messages (l : Letter) (s : Store) (time : String) (ids : Nat → String) : List Message :=
  (l.recipients s).mapIdx fun i recipient => l.message time (ids i) recipient

/-- To whom a letter is relayed. -/
def destination (l : Letter) : String := if l.isBroadcast then everyone else l.recipient

/-- What is relayed: an envelope with the id of the first message, so that the store knows
it when it comes back. -/
def envelope (l : Letter) (ids : Nat → String) : Envelope :=
  ⟨ids 0, l.sender, l.destination, l.type, l.priority, l.convoy, l.payload⟩

end Letter

end Mailroom
