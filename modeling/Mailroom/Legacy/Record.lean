/-
Legacy records: messages in files of their own.

A record begins with a header line `<!--TOON:message{…`. The next line holds id,
sender, recipient, type, priority, convoy, time and status, between commas; a line
`-->` ends the header, and the payload follows. Blanks around a line or a field do
not count.

* `LegacyRecord.parse` — the message of a record. A record from the archive is
  archived, whatever status it names.
-/
import Mailroom.Names
import Mailroom.Text.Blank
import Mailroom.Text.Lines

namespace Mailroom.LegacyRecord

/-- What the header line begins with. -/
def opening : List Char := "<!--TOON:message\x7b".toList

/-- The line that ends the header. -/
def closing : List Char := "-->".toList

/-- The fields of the line after the header. -/
structure Fields where
  id : List Char
  sender : List Char
  recipient : List Char
  type : List Char
  priority : List Char
  convoy : List Char
  time : List Char
  status : List Char

/-- The fields between the commas of a line. The last field keeps further commas. -/
def Fields.ofLine (line : List Char) : Except InputFault Fields :=
  match (Text.cutAtMost ',' 8 line).map Text.trim with
  | [id, sender, recipient, type, priority, convoy, time, status] =>
    .ok ⟨id, sender, recipient, type, priority, convoy, time, status⟩
  | fields => .error (.fieldCount fields.length)

/-- The message of some fields and a payload. -/
def message (f : Fields) (payload : List Char) (archived : Bool) : Except InputFault Message := do
  if f.id.isEmpty || f.sender.isEmpty || f.recipient.isEmpty then throw .emptyField
  let time ← (Time.Rfc3339.parseChars f.time).mapError (.badTimestamp (String.ofList f.time))
  let createdAt := time.stamp
  let status ← if archived then pure .archived else MessageStatus.parse (String.ofList f.status)
  let type ← MessageType.parse (String.ofList f.type)
  let priority ← Priority.parse (String.ofList f.priority)
  return ⟨String.ofList f.id, String.ofList f.sender, String.ofList f.recipient, type, priority,
    String.ofList f.convoy, String.ofList payload, status, createdAt,
    if status = .unread then none else some createdAt,
    if status = .archived then some createdAt else none⟩

/-- The message of a record, from its lines. -/
def ofLines (lines : List (List Char)) (archived : Bool) : Except InputFault Message :=
  if !opening.isPrefixOf (Text.trim (lines.headD [])) then .error .noHeader
  else
    match lines.drop 1 with
    | [] => .error .noRow
    | [_] => .error .openHeader
    | row :: last :: payload =>
      if Text.trim last ≠ closing then .error .openHeader
      else do
        let fields ← Fields.ofLine row
        message fields (Text.trim (Text.unlines payload)) archived

/-- The message of a record. -/
def parse (content : String) (archived : Bool) : Except InputFault Message :=
  ofLines (Text.lines content.toList) archived

end Mailroom.LegacyRecord
