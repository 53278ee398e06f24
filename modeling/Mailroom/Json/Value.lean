/-
JSON values and their printed form.

Fields of an object keep their order, and a name may occur twice. An integer of 64
bits is a value of its own; any other number is kept as it was written.

* `Value.compact` — a value on one line;
* `Value.pretty` — a value over several lines, two spaces deeper at each level;
* `quoted` — a text with its quotes and escapes;
* `Value.field?` — the field of an object, the last one of that name.
-/

namespace Mailroom.Json

/-- A JSON value. -/
inductive Value where
  | null
  | bool (b : Bool)
  | integer (n : Int)
  | real (literal : String)
  | text (s : String)
  | list (items : List Value)
  | object (fields : List (String × Value))

/-- The text, or nothing written as `null`. -/
def Value.ofText? : Option String → Value
  | some s => .text s
  | none => .null

/-- A count. -/
def Value.count (n : Nat) : Value := .integer n

/-! ### Printing -/

/-- A small hexadecimal digit. -/
def smallHexDigit (n : Nat) : Char := Char.ofNat (if n < 10 then 48 + n else 87 + n)

/-- One character of a quoted text. Control characters are escaped, and no others
than the quote and the backslash. -/
def escaped (c : Char) : List Char :=
  if c = '"' then ['\\', '"']
  else if c = '\\' then ['\\', '\\']
  else if c = '\n' then ['\\', 'n']
  else if c = '\r' then ['\\', 'r']
  else if c = '\t' then ['\\', 't']
  else if c.toNat = 8 then ['\\', 'b']
  else if c.toNat = 12 then ['\\', 'f']
  else if c.toNat < 32 then
    ['\\', 'u', '0', '0', smallHexDigit (c.toNat / 16), smallHexDigit (c.toNat % 16)]
  else [c]

/-- A text between quotes. -/
def quoted (s : String) : String := String.ofList ('"' :: s.toList.flatMap escaped ++ ['"'])

/-- The printed form of a value that holds no others. -/
def Value.atom : Value → String
  | .null => "null"
  | .bool b => if b then "true" else "false"
  | .integer n => toString n
  | .real literal => literal
  | .text s => quoted s
  | .list _ => "[]"
  | .object _ => "\x7b\x7d"

mutual

/-- A value on one line. -/
def Value.compact : Value → String
  | .list (x :: xs) => "[" ++ x.compact ++ compactItems xs ++ "]"
  | .object ((k, v) :: rest) =>
    "\x7b" ++ quoted k ++ ":" ++ v.compact ++ compactFields rest ++ "\x7d"
  | v => v.atom

/-- The items after the first. -/
def compactItems : List Value → String
  | [] => ""
  | x :: xs => "," ++ x.compact ++ compactItems xs

/-- The fields after the first. -/
def compactFields : List (String × Value) → String
  | [] => ""
  | (k, v) :: rest => "," ++ quoted k ++ ":" ++ v.compact ++ compactFields rest

end

/-- The blanks in front of a line at some depth. -/
def indent (depth : Nat) : String := String.ofList (List.replicate (2 * depth) ' ')

mutual

/-- A value at some depth, over several lines. -/
def Value.prettyAt (depth : Nat) : Value → String
  | .list (x :: xs) =>
    "[\n" ++ indent (depth + 1) ++ x.prettyAt (depth + 1) ++ prettyItems (depth + 1) xs ++ "\n" ++
      indent depth ++ "]"
  | .object ((k, v) :: rest) =>
    "\x7b\n" ++ indent (depth + 1) ++ quoted k ++ ": " ++ v.prettyAt (depth + 1) ++
      prettyFields (depth + 1) rest ++ "\n" ++ indent depth ++ "\x7d"
  | v => v.atom

/-- The items after the first, each on a line of its own. -/
def prettyItems (depth : Nat) : List Value → String
  | [] => ""
  | x :: xs => ",\n" ++ indent depth ++ x.prettyAt depth ++ prettyItems depth xs

/-- The fields after the first, each on a line of its own. -/
def prettyFields (depth : Nat) : List (String × Value) → String
  | [] => ""
  | (k, v) :: rest =>
    ",\n" ++ indent depth ++ quoted k ++ ": " ++ v.prettyAt depth ++ prettyFields depth rest

end

/-- A value over several lines. -/
def Value.pretty (v : Value) : String := v.prettyAt 0

/-! ### Looking inside -/

/-- The value of a field; of two fields with one name the last counts. -/
def Value.field? (name : String) : Value → Option Value
  | .object fields => (fields.reverse.find? (·.1 == name)).map (·.2)
  | _ => none

/-- The text that a value is. -/
def Value.text? : Value → Option String
  | .text s => some s
  | _ => none

end Mailroom.Json
