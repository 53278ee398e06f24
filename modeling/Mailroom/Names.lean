/-
Names that are read, with the refusal of those that stand for nothing.

* `MessageType.parse`, `Priority.parse`, `MessageStatus.parse`, `AgentStatus.parse`,
  `Selector.parse` — the value of a name;
* `Selector` — which transports an operation means.
-/
import Mailroom.Agent
import Mailroom.Error
import Mailroom.Message

namespace Mailroom

/-- Which transports an operation means. -/
inductive Selector where
  /-- none: the message stays on this machine -/
  | here
  | simplex
  | matrix
  /-- every transport that leads to other machines -/
  | all
  deriving DecidableEq, Repr

namespace Selector

/-- The name of a selector. -/
def name : Selector → String
  | here => "local"
  | simplex => "simplex"
  | matrix => "matrix"
  | all => "all"

/-- The selector with this name. -/
def ofName? (s : String) : Option Selector := [here, simplex, matrix, all].find? (·.name == s)

end Selector

/-- The value of a name, or the refusal of the text. -/
def named {α : Type} (ofName? : String → Option α) (refusal : String → InputFault) (s : String) :
    Except InputFault α :=
  match ofName? s with
  | some x => .ok x
  | none => .error (refusal s)

/-- The message type with this name. -/
def MessageType.parse : String → Except InputFault MessageType :=
  named ofName? .unknownMessageType

/-- The priority with this name. -/
def Priority.parse : String → Except InputFault Priority := named ofName? .unknownPriority

/-- The message status with this name. -/
def MessageStatus.parse : String → Except InputFault MessageStatus :=
  named ofName? .unknownMessageStatus

/-- The agent status with this name. -/
def AgentStatus.parse : String → Except InputFault AgentStatus :=
  named ofName? .unknownAgentStatus

/-- The selector with this name. -/
def Selector.parse : String → Except InputFault Selector := named ofName? .unknownTransport

end Mailroom
