/-
Envelopes: messages on one line of plain text, for carrying them over a chat.

The line is `AIMAIL:1|id|from|to|type|priority|convoy|payload`. Only the payload may
hold any text, and it travels in base64; the other fields are written as they are.

* `Envelope.encode` — the line of an envelope;
* `Envelope.decode?` — the envelope of a line. Blanks around the line are ignored,
  and the version may be spelled with a plus sign and leading zeros. A line without
  id, sender or recipient is no envelope;
* `isWireSafe` — whether a field can be written as it is;
* `Envelope.isFor` — whether an agent has to store an envelope.
-/
import Mailroom.Message
import Mailroom.Text.Base64
import Mailroom.Text.Blank
import Mailroom.Text.Lines
import Mailroom.Text.Numeral
import Mailroom.Text.Utf8

namespace Mailroom

/-- What every envelope line begins with. -/
def marker : List Char := "AIMAIL:".toList

/-- The version of the line format. -/
def wireVersion : Nat := 1

/-- What stands between two fields. -/
def delimiter : Char := '|'

/-- Whether a field holds neither the delimiter nor a line break. -/
def isWireSafe (field : String) : Bool :=
  field.toList.all fun c => c != delimiter && c != '\n' && c != '\r'

/-- Whether a text begins with the marker, blanks aside. -/
def looksLikeEnvelope (cs : List Char) : Bool := marker.isPrefixOf (Text.trimStart cs)

/-- The part of a message that travels. -/
structure Envelope where
  id : String
  sender : String
  recipient : String
  type : MessageType
  priority : Priority
  convoy : String
  payload : String
  deriving DecidableEq, Repr

/-- The envelope that carries a message. -/
def Message.envelope (m : Message) : Envelope :=
  ⟨m.id, m.sender, m.recipient, m.type, m.priority, m.convoy, m.payload⟩

namespace Envelope

/-- Whether this envelope belongs into an agent's inbox. -/
def isFor (e : Envelope) (agent : String) : Bool := e.recipient == agent || e.recipient == everyone

/-- The written form of a payload. -/
def payloadChars (payload : String) : List Char := Text.Base64.encode (Text.encodeUtf8 payload)

/-- The fields of the line, in their order. -/
def fieldChars (e : Envelope) : List (List Char) :=
  [e.id.toList, e.sender.toList, e.recipient.toList, e.type.name.toList, e.priority.name.toList,
    e.convoy.toList, payloadChars e.payload]

/-- The characters of the line. -/
def encodeChars (e : Envelope) : List Char :=
  marker ++ Nat.toDigits 10 wireVersion ++ delimiter :: List.intercalate [delimiter] e.fieldChars

/-- The line of an envelope. -/
def encode (e : Envelope) : String := String.ofList e.encodeChars

/-- The envelope with these fields. -/
def ofFields? : List (List Char) → Option Envelope
  | [id, sender, recipient, type, priority, convoy, payload] => do
    if id.isEmpty || sender.isEmpty || recipient.isEmpty then none
    let type ← MessageType.ofName? (String.ofList type)
    let priority ← Priority.ofName? (String.ofList priority)
    let payload ← Text.decode? (← Text.Base64.decode? payload)
    some ⟨String.ofList id, String.ofList sender, String.ofList recipient, type, priority,
      String.ofList convoy, payload⟩
  | _ => none

/-- The envelope that a line of characters holds. -/
def decodeChars? (line : List Char) : Option Envelope := do
  let rest ← Text.dropFront? marker (Text.trim line)
  let (version, fields) ← Text.cut? delimiter rest
  if (← Text.unsigned? Text.maxWord version) ≠ wireVersion then none
  ofFields? (fields.splitOn delimiter)

/-- The envelope that a line holds. -/
def decode? (line : String) : Option Envelope := decodeChars? line.toList

end Envelope

end Mailroom
