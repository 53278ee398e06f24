/-
Messages, agents and envelopes as JSON records.

* `Message.toValue`, `Message.ofValue`, and the same for `Agent` and `Envelope` —
  the record of a value and the value of a record.
-/
import Mailroom.Agent
import Mailroom.Envelope
import Mailroom.Json.Record

namespace Mailroom

open Json

/-- The record of a message. -/
def Message.toValue (m : Message) : Value :=
  .object [("id", .text m.id), ("from_agent", .text m.sender), ("to_agent", .text m.recipient),
    ("type", .text m.type.name), ("priority", .text m.priority.name), ("convoy", .text m.convoy),
    ("payload", .text m.payload), ("status", .text m.status.name),
    ("created_at", .text m.createdAt), ("read_at", .ofText? m.readAt),
    ("archived_at", .ofText? m.archivedAt)]

/-- The message that a record describes. -/
def Message.ofValue (v : Value) : Except Problem Message := do
  let r ← Record.ofValue "Message" ["id", "from_agent", "to_agent", "type", "priority", "convoy",
    "payload", "status", "created_at", "read_at", "archived_at"] v
  return {
    id := ← r.required "id" asText
    sender := ← r.required "from_agent" asText
    recipient := ← r.required "to_agent" asText
    type := ← r.required "type" (asName MessageType.ofName?)
    priority := ← r.required "priority" (asName Priority.ofName?)
    convoy := ← r.required "convoy" asText
    payload := ← r.required "payload" asText
    status := ← r.required "status" (asName MessageStatus.ofName?)
    createdAt := ← r.required "created_at" asText
    readAt := ← r.optional "read_at" asText
    archivedAt := ← r.optional "archived_at" asText }

/-- The record of an agent. -/
def Agent.toValue (a : Agent) : Value :=
  .object [("id", .text a.id), ("role", .text a.role), ("branch", .ofText? a.branch),
    ("worktree", .ofText? a.worktree), ("status", .text a.status.name),
    ("registered_at", .text a.registeredAt), ("last_seen_at", .text a.lastSeenAt)]

/-- The agent that a record describes. -/
def Agent.ofValue (v : Value) : Except Problem Agent := do
  let r ← Record.ofValue "Agent"
    ["id", "role", "branch", "worktree", "status", "registered_at", "last_seen_at"] v
  return {
    id := ← r.required "id" asText
    role := ← r.required "role" asText
    branch := ← r.optional "branch" asText
    worktree := ← r.optional "worktree" asText
    status := ← r.required "status" (asName AgentStatus.ofName?)
    registeredAt := ← r.required "registered_at" asText
    lastSeenAt := ← r.required "last_seen_at" asText }

/-- The record of an envelope. -/
def Envelope.toValue (e : Envelope) : Value :=
  .object [("id", .text e.id), ("from_agent", .text e.sender), ("to_agent", .text e.recipient),
    ("message_type", .text e.type.name), ("priority", .text e.priority.name),
    ("convoy", .text e.convoy), ("payload", .text e.payload)]

/-- The envelope that a record describes. -/
def Envelope.ofValue (v : Value) : Except Problem Envelope := do
  let r ← Record.ofValue "Envelope"
    ["id", "from_agent", "to_agent", "message_type", "priority", "convoy", "payload"] v
  return {
    id := ← r.required "id" asText
    sender := ← r.required "from_agent" asText
    recipient := ← r.required "to_agent" asText
    type := ← r.required "message_type" (asName MessageType.ofName?)
    priority := ← r.required "priority" (asName Priority.ofName?)
    convoy := ← r.required "convoy" asText
    payload := ← r.required "payload" asText }

end Mailroom
