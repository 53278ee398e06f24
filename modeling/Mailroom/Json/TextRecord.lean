/-
Records of texts, read where they stand.

A record whose fields are all texts is read field by field while the text goes by, so
that the first thing that is wrong decides the refusal, whether it concerns the text
or the record. A field may have several names; unknown fields are skipped.

* `TextRecord` — the title of a record and the names of its fields;
* `TextRecord.parse` — the texts of the fields, from a whole text.

A refusal that concerns the record and not the text is placed after the closing
bracket if that is what comes next, and where reading stopped otherwise.
-/
import Mailroom.Json.Reader
import Mailroom.Json.Record

namespace Mailroom.Json

/-- A record whose fields are texts: each has one or more names, the first of which
stands in messages. -/
structure TextRecord where
  title : String
  fields : List (List String)

namespace TextRecord

/-- A refusal that concerns the record, at a cursor inside of it. -/
def refusal (c : Cursor) (close : Char) (p : Problem) : Fault :=
  let c := c.skipBlanks
  if c.rest.head? = some close then c.advance.fault p else c.fault p

/-- The first name of a field. -/
def title? (names : List String) : String := names.headD ""

/-- The place of the field with this name. -/
def index? (r : TextRecord) (name : String) : Option Nat := r.fields.findIdx? (·.contains name)

/-- The fields of an object, some of which have been found already. -/
def objectFields (r : TextRecord) :
    Nat → Bool → List (Option String) → Cursor → Except Fault (List (Option String) × Cursor)
  | 0, _, _, c => .error (c.fault .tooDeep)
  | n + 1, first, found, c => do
    let (more, c) ← moreFields first c
    if !more then return (found, c)
    let (key, c) ← quotedText c
    match r.index? key with
    | none =>
      let c ← colon c
      let (_, c) ← value c.measure 0 c
      r.objectFields n false found c
    | some i =>
      if (found[i]?.bind id).isSome then
        throw (refusal c '}' (.repeated (title? (r.fields.getD i []))))
      let c ← colon c
      let (s, c) ← expectText c
      r.objectFields n false (found.set i (some s)) c

/-- The texts of all fields of an object, or the refusal of the first one missing. -/
def complete (r : TextRecord) (found : List (Option String)) (c : Cursor) :
    Except Fault (List String) :=
  (r.fields.zip found).mapM fun (names, s) =>
    match s with
    | some s => .ok s
    | none => .error (refusal c '}' (.missing (title? names)))

/-- The texts of the fields in a list. -/
def listFields (r : TextRecord) :
    List (List String) → Bool → Nat → Cursor → Except Fault (List String × Cursor)
  | [], _, _, c => .ok ([], c)
  | _ :: rest, first, count, c => do
    let (more, c) ← moreItems first c
    if !more then
      throw (refusal c ']' (.wrongLength count
        (Record.kind r.title ++ " with " ++ toString r.fields.length ++ " elements")))
    let (s, c) ← expectText c
    let (texts, c) ← r.listFields rest false (count + 1) c
    return (s :: texts, c)

/-- The end of a list of fields: its closing bracket has to come next. -/
def closeList (c : Cursor) : Except Fault Cursor :=
  let c := c.skipBlanks
  match c.rest with
  | [] => .error (c.peekFault .endInList)
  | x :: _ =>
    if x = ']' then .ok c.advance
    else if x = ',' then
      let c := c.advance.skipBlanks
      .error (c.peekFault (if c.rest.head? = some ']' then .commaAtEnd else .moreText))
    else .error (c.peekFault .moreText)

/-- The record at a cursor. -/
def read (r : TextRecord) (c : Cursor) : Except Fault (List String × Cursor) := do
  let c := c.skipBlanks
  match c.rest.head? with
  | some '[' =>
    let (texts, c) ← r.listFields r.fields true 0 c.advance
    return (texts, ← closeList c)
  | some '{' =>
    let (found, c) ← r.objectFields c.measure true (r.fields.map fun _ => none) c.advance
    return (← r.complete found c, c.advance)
  | _ =>
    let (v, c) ← atom c
    throw (c.fault (.wrongType v.kind (Record.kind r.title)))

/-- The texts of the fields, from a whole text. -/
def parse (r : TextRecord) (s : String) : Except Fault (List String) := do
  let (texts, c) ← r.read (Cursor.ofText s)
  finish c
  return texts

end TextRecord

end Mailroom.Json
