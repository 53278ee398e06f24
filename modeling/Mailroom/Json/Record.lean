/-
Records inside JSON values.

A record is written as an object, whose fields may come in any order and among
unknown ones, or as a list of its fields in their order. A field that occurs twice
in an object is refused, and so is a list that is too long.

* `Record.ofValue` — the fields found;
* `Record.required`, `Record.optional`, `Record.omittable`, `Record.withDefault` — one
  field: it has to be there; it may be `null` and may be left out of an object; the same
  and it may be left out of a list too; it may be left out but must not be `null`;
* `asText`, `asWord`, `asName` — a field's value as a text, a number of 32 bits, or
  one of some names.
-/
import Mailroom.Json.Fault
import Mailroom.Text.Numeral

namespace Mailroom.Json

/-- The fields of a record as far as they are given. -/
structure Record where
  title : String
  names : List String
  /-- whether the fields were given as a list -/
  positional : Bool
  given : List (Option Value)

/-- The values of one name. -/
def valuesOf (name : String) (fields : List (String × Value)) : List Value :=
  fields.filterMap fun (k, v) => if k = name then some v else none

namespace Record

/-- How a record is named in a message. -/
def kind (title : String) : String := "struct " ++ title

/-- The fields that a value gives for a record with these names. -/
def ofValue (title : String) (names : List String) : Value → Except Problem Record
  | .object fields => do
    let given ← names.mapM fun name =>
      match valuesOf name fields with
      | [] => .ok none
      | [v] => .ok (some v)
      | _ => .error (.repeated name)
    return ⟨title, names, false, given⟩
  | .list items =>
    if names.length < items.length then
      .error (.wrongLength items.length (kind title ++ " with fewer elements"))
    else .ok ⟨title, names, true, names.zipIdx.map fun (_, i) => items[i]?⟩
  | v => .error (.wrongType v.kind (kind title))

/-- The value given for the field of this name. -/
def get? (r : Record) (name : String) : Option Value := do
  let i ← r.names.idxOf? name
  let v ← r.given[i]?
  v

/-- The refusal of a record that lacks a field. -/
def lacks (r : Record) (name : String) : Problem :=
  if r.positional then
    .wrongLength (r.given.filterMap id).length
      (kind r.title ++ " with " ++ toString r.names.length ++ " elements")
  else .missing name

/-- A field that has to be there. -/
def required {α : Type} (r : Record) (name : String) (read : Value → Except Problem α) :
    Except Problem α :=
  match r.get? name with
  | some v => read v
  | none => .error (r.lacks name)

/-- The value of an optional field that is there. -/
def readOption {α : Type} (read : Value → Except Problem α) : Value → Except Problem (Option α)
  | .null => .ok none
  | v => (read v).map some

/-- A field that may be `null`, and may be left out of an object. -/
def optional {α : Type} (r : Record) (name : String) (read : Value → Except Problem α) :
    Except Problem (Option α) :=
  match r.get? name with
  | some v => readOption read v
  | none => if r.positional then .error (r.lacks name) else .ok none

/-- A field that may be `null`, and may be left out of an object or a list. -/
def omittable {α : Type} (r : Record) (name : String) (read : Value → Except Problem α) :
    Except Problem (Option α) :=
  match r.get? name with
  | some v => readOption read v
  | none => .ok none

/-- A field that may be left out, and has a default then. -/
def withDefault {α : Type} (r : Record) (name : String) (default : α)
    (read : Value → Except Problem α) : Except Problem α :=
  match r.get? name with
  | some v => read v
  | none => .ok default

end Record

/-- A text. -/
def asText : Value → Except Problem String
  | .text s => .ok s
  | v => .error (.wrongType v.kind "a string")

/-- A number of 32 bits without sign. -/
def asWord : Value → Except Problem Nat
  | .integer n =>
    if 0 ≤ n ∧ n ≤ Text.maxWord then .ok n.toNat
    else .error (.wrongValue (Value.integer n).kind "u32")
  | v => .error (.wrongType v.kind "u32")

/-- One of some named values: its name, or an object with its name for the only field
and `null` for that field's value. -/
def asName {α : Type} (ofName? : String → Option α) : Value → Except Problem α
  | .text s => named s
  | .object [(s, .null)] => named s
  | .object [(_, v)] => .error (.wrongType v.kind "unit variant")
  | .object _ => .error (.wrongValue "map" "map with a single key")
  | v => .error (.wrongType v.kind "string or map")
where
  /-- The value of a name. -/
  named (s : String) : Except Problem α :=
    match ofName? s with
    | some x => .ok x
    | none => .error (.unknownName s)

end Mailroom.Json
