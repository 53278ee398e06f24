/-
What can be wrong with a JSON text, and where.

A place counts lines from 1 and the bytes of a line from 0, up to and including the
byte at which reading stopped.

* `Problem` — the causes, with their wording in `Problem.message`;
* `Fault` — a cause and its place;
* `Value.kind` — how a value is named when it is not what was expected.
-/
import Mailroom.Json.Value
import Mailroom.Text.Numeral

namespace Mailroom.Json

/-- The cause of a refusal. -/
inductive Problem where
  | endInValue
  | endInList
  | endInObject
  | endInText
  | noColon
  | noListEnd
  | noObjectEnd
  | noWord
  | noValue
  | badEscape
  | badNumber
  | hugeNumber
  | controlCharacter
  | keyNotText
  | loneSurrogate
  | brokenPair
  | commaAtEnd
  | moreText
  | tooDeep
  | wrongType (found expected : String)
  | wrongValue (found expected : String)
  | wrongLength (found : Nat) (expected : String)
  | missing (field : String)
  | repeated (field : String)
  | unknownName (found : String)
  deriving DecidableEq, Repr

/-- The wording of a cause. -/
def Problem.message : Problem → String
  | endInValue => "EOF while parsing a value"
  | endInList => "EOF while parsing a list"
  | endInObject => "EOF while parsing an object"
  | endInText => "EOF while parsing a string"
  | noColon => "expected `:`"
  | noListEnd => "expected `,` or `]`"
  | noObjectEnd => "expected `,` or `\x7d`"
  | noWord => "expected ident"
  | noValue => "expected value"
  | badEscape => "invalid escape"
  | badNumber => "invalid number"
  | hugeNumber => "number out of range"
  | controlCharacter => "control character (\\u0000-\\u001F) found while parsing a string"
  | keyNotText => "key must be a string"
  | loneSurrogate => "lone leading surrogate in hex escape"
  | brokenPair => "unexpected end of hex escape"
  | commaAtEnd => "trailing comma"
  | moreText => "trailing characters"
  | tooDeep => "recursion limit exceeded"
  | wrongType found expected => "invalid type: " ++ found ++ ", expected " ++ expected
  | wrongValue found expected => "invalid value: " ++ found ++ ", expected " ++ expected
  | wrongLength found expected => "invalid length " ++ toString found ++ ", expected " ++ expected
  | missing field => "missing field `" ++ field ++ "`"
  | repeated field => "duplicate field `" ++ field ++ "`"
  | unknownName found => "unknown variant `" ++ found ++ "`"

/-- A position in a text. -/
structure Place where
  line : Nat
  column : Nat
  deriving DecidableEq, Repr

/-- The start of a text. -/
def Place.start : Place := ⟨1, 0⟩

/-- The place after one more character. -/
def Place.after (p : Place) (c : Char) : Place :=
  if c = '\n' then ⟨p.line + 1, 0⟩ else ⟨p.line, p.column + c.utf8Size⟩

/-- The place one byte into the next character. -/
def Place.within (p : Place) (c : Char) : Place :=
  if c = '\n' then ⟨p.line + 1, 0⟩ else ⟨p.line, p.column + 1⟩

/-- A refusal: its cause, and its place if the cause was found in a text. -/
structure Fault where
  problem : Problem
  place? : Option Place
  deriving DecidableEq, Repr

/-- The wording of a refusal. -/
def Fault.message (f : Fault) : String :=
  match f.place? with
  | none => f.problem.message
  | some p =>
    f.problem.message ++ " at line " ++ toString p.line ++ " column " ++ toString p.column

/-! ### Naming values -/

/-- One character of a text shown in a message. -/
def shownChar (c : Char) : List Char :=
  if c = '"' then ['\\', '"']
  else if c = '\\' then ['\\', '\\']
  else if c = '\n' then ['\\', 'n']
  else if c = '\r' then ['\\', 'r']
  else if c = '\t' then ['\\', 't']
  else if c.toNat = 0 then ['\\', '0']
  else if c.toNat < 32 || (127 ≤ c.toNat && c.toNat < 160) then
    ['\\', 'u', Char.ofNat 123] ++ (Nat.toDigits 16 c.toNat) ++ [Char.ofNat 125]
  else [c]

/-- A text as it is shown in a message. -/
def shown (s : String) : String := String.ofList ('"' :: s.toList.flatMap shownChar ++ ['"'])

/-- The significant digits of a literal and the power of ten by which they count. -/
structure Decimal where
  digits : List Char
  exponent : Int

/-- The whole number that a signed run of digits denotes. -/
def signedValue (cs : List Char) : Int :=
  match cs with
  | '-' :: rest => -(((Text.digitsValue 0 rest).getD 0 : Nat) : Int)
  | '+' :: rest => (((Text.digitsValue 0 rest).getD 0 : Nat) : Int)
  | rest => (((Text.digitsValue 0 rest).getD 0 : Nat) : Int)

/-- The digits and the exponent of a number literal without its sign, without zeros
at either end of the digits. -/
def Decimal.ofLiteral (cs : List Char) : Decimal :=
  let mantissa := cs.takeWhile fun c => c != 'e' && c != 'E'
  let power := signedValue (cs.drop (mantissa.length + 1))
  let whole := mantissa.takeWhile (· != '.')
  let places := mantissa.drop (whole.length + 1)
  let all := whole ++ places
  let cut := all.reverse.dropWhile (· == '0')
  ⟨cut.reverse.dropWhile (· == '0'), power - places.length + (all.length - cut.length : Nat)⟩

/-- A decimal in the shortest form: positional if the point stands among or near the
digits, with an exponent otherwise. -/
def Decimal.render (d : Decimal) : List Char :=
  let n : Int := d.digits.length
  let point := n + d.exponent
  if d.digits.isEmpty then ['0', '.', '0']
  else if 0 ≤ d.exponent ∧ point ≤ 16 then
    d.digits ++ List.replicate d.exponent.toNat '0' ++ ['.', '0']
  else if 0 < point ∧ point ≤ 16 then
    d.digits.take point.toNat ++ '.' :: d.digits.drop point.toNat
  else if -5 < point ∧ point ≤ 0 then
    ['0', '.'] ++ List.replicate (-point).toNat '0' ++ d.digits
  else
    let power := (toString (point - 1)).toList
    if d.digits.length = 1 then d.digits ++ 'e' :: power
    else d.digits.take 1 ++ '.' :: d.digits.drop 1 ++ 'e' :: power

/-- A literal that is no integer, in its normal form. -/
def normalReal (literal : String) : String :=
  match literal.toList with
  | '-' :: cs => String.ofList ('-' :: (Decimal.ofLiteral cs).render)
  | cs => String.ofList (Decimal.ofLiteral cs).render

/-- How a value is named when another kind was expected. -/
def Value.kind : Value → String
  | .null => "null"
  | .bool b => "boolean `" ++ (if b then "true" else "false") ++ "`"
  | .integer n => "integer `" ++ toString n ++ "`"
  | .real literal => "floating point `" ++ normalReal literal ++ "`"
  | .text s => "string " ++ shown s
  | .list _ => "sequence"
  | .object _ => "map"

end Mailroom.Json
