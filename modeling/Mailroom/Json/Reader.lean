/-
Reading JSON text.

Reading goes from left to right with a cursor, so that a refusal can say where it
stopped. A refusal about a character that was only looked at is placed one byte into
that character; one about a character that was taken is placed after it.

* `Value.parse` — the value of a whole text;
* `value` — the value at a cursor;
* `expectText` — a text at a cursor, where any other value is refused;
* `finish` — nothing but blanks may be left.

`value`, `items` and `fields` go down with a measure that `Value.parse` takes from
the length of the text; nesting deeper than `maxDepth` is refused.
-/
import Mailroom.Json.Fault
import Mailroom.Text.Percent

namespace Mailroom.Json

/-- The text that is left and where it begins. -/
structure Cursor where
  rest : List Char
  place : Place

namespace Cursor

/-- The cursor at the start of a text. -/
def ofText (s : String) : Cursor := ⟨s.toList, .start⟩

/-- A refusal here. -/
def fault (c : Cursor) (p : Problem) : Fault := ⟨p, some c.place⟩

/-- A refusal of the next character. -/
def peekFault (c : Cursor) (p : Problem) : Fault :=
  ⟨p, some (match c.rest with
    | [] => c.place
    | x :: _ => c.place.within x)⟩

/-- The cursor after one more character. -/
def advance (c : Cursor) : Cursor :=
  match c.rest with
  | [] => c
  | x :: rest => ⟨rest, c.place.after x⟩

/-- The cursor after `n` more characters. -/
def advanceBy (c : Cursor) : Nat → Cursor
  | 0 => c
  | n + 1 => c.advance.advanceBy n

/-- Whether JSON allows the character between tokens. -/
def isGap (x : Char) : Bool := x == ' ' || x == '\n' || x == '\t' || x == '\r'

/-- The cursor after the blanks. -/
def skipBlanks (c : Cursor) : Cursor := c.advanceBy (c.rest.takeWhile isGap).length

end Cursor

/-! ### Texts -/

/-- The number that four hexadecimal digits at the front denote. -/
def fourHex (c : Cursor) : Except Fault (Nat × Cursor) :=
  match c.rest with
  | h1 :: h2 :: h3 :: h4 :: _ =>
    let after := c.advanceBy 4
    match Text.Percent.hexValue? h1, Text.Percent.hexValue? h2, Text.Percent.hexValue? h3,
        Text.Percent.hexValue? h4 with
    | some d1, some d2, some d3, some d4 => .ok (((d1 * 16 + d2) * 16 + d3) * 16 + d4, after)
    | _, _, _, _ => .error (after.fault .badEscape)
  | rest => .error ((c.advanceBy rest.length).fault .endInText)

/-- The character that an escape with `u` denotes: a leading surrogate needs a
trailing one right after it. -/
def unicodeEscape (c : Cursor) : Except Fault (Char × Cursor) := do
  let (n, c) ← fourHex c
  if 0xDC00 ≤ n ∧ n ≤ 0xDFFF then throw (c.fault .loneSurrogate)
  if n < 0xD800 ∨ 0xDBFF < n then return (Char.ofNat n, c)
  match c.rest with
  | [] => throw (c.fault .endInText)
  | '\\' :: [] => throw (c.advance.fault .endInText)
  | '\\' :: 'u' :: _ =>
    let (m, c) ← fourHex (c.advanceBy 2)
    if m < 0xDC00 ∨ 0xDFFF < m then throw (c.fault .loneSurrogate)
    return (Char.ofNat ((n - 0xD800) * 1024 + (m - 0xDC00) + 0x10000), c)
  | '\\' :: _ => throw ((c.advanceBy 2).fault .brokenPair)
  | _ => throw (c.advance.fault .brokenPair)

/-- The character that an escape denotes, after its backslash. -/
def escape (c : Cursor) : Except Fault (Char × Cursor) :=
  match c.rest with
  | [] => .error (c.fault .endInText)
  | x :: _ =>
    let after := c.advance
    match x with
    | '"' => .ok ('"', after)
    | '\\' => .ok ('\\', after)
    | '/' => .ok ('/', after)
    | 'b' => .ok (Char.ofNat 8, after)
    | 'f' => .ok (Char.ofNat 12, after)
    | 'n' => .ok ('\n', after)
    | 'r' => .ok ('\r', after)
    | 't' => .ok ('\t', after)
    | 'u' => unicodeEscape after
    | _ => .error (after.fault .badEscape)

/-- The rest of a text after its opening quote; `acc` holds its start, backwards. -/
def textBody : Nat → List Char → Cursor → Except Fault (String × Cursor)
  | 0, _, c => .error (c.fault .endInText)
  | n + 1, acc, c =>
    match c.rest with
    | [] => .error (c.fault .endInText)
    | x :: _ =>
      if x = '"' then .ok (String.ofList acc.reverse, c.advance)
      else if x = '\\' then do
        let (y, c) ← escape c.advance
        textBody n (y :: acc) c
      else if x.toNat < 32 then .error (c.advance.fault .controlCharacter)
      else textBody n (x :: acc) c.advance

/-- A text, from its opening quote on. -/
def quotedText (c : Cursor) : Except Fault (String × Cursor) :=
  textBody (c.rest.length + 1) [] c.advance

/-! ### Words and numbers -/

/-- The letters that a word still needs. -/
def word : List Char → Cursor → Except Fault Cursor
  | [], c => .ok c
  | x :: more, c =>
    match c.rest with
    | [] => .error (c.fault .endInValue)
    | y :: _ => if x = y then word more c.advance else .error (c.advance.fault .noWord)

/-- The digits at the front, which must not be empty where `needed` says how a
refusal is placed. -/
def digitRun (c : Cursor) : List Char × Cursor :=
  let run := c.rest.takeWhile Char.isDigit
  (run, c.advanceBy run.length)

/-- The fraction of a number, if one follows. -/
def fraction (c : Cursor) : Except Fault (List Char × Cursor) :=
  if c.rest.head? = some '.' then
    let (run, after) := digitRun c.advance
    if run.isEmpty then
      .error (after.peekFault (if after.rest.isEmpty then .endInValue else .badNumber))
    else .ok ('.' :: run, after)
  else .ok ([], c)

/-- The exponent of a number, if one follows. -/
def exponent (c : Cursor) : Except Fault (List Char × Cursor) :=
  match c.rest with
  | x :: more =>
    if x = 'e' ∨ x = 'E' then
      let sign := if more.head? = some '+' ∨ more.head? = some '-' then more.take 1 else []
      let start := c.advanceBy (1 + sign.length)
      let (run, after) := digitRun start
      if run.isEmpty then
        if start.rest.isEmpty then .error (start.fault .endInValue)
        else .error (start.advance.fault .badNumber)
      else .ok (x :: sign ++ run, after)
    else .ok ([], c)
  | [] => .ok ([], c)

/-- Whether a decimal lies beyond the numbers of 64-bit floating point. -/
def Decimal.isHuge (d : Decimal) : Bool :=
  let size : Int := d.digits.length + d.exponent
  let value := (Text.digitsValue 0 d.digits).getD 0
  if value = 0 || size < 300 then false
  else if 310 < size then true
  else
    Nat.pow 2 1024 - Nat.pow 2 970 ≤
      value * Nat.pow 10 d.exponent.toNat / Nat.pow 10 (-d.exponent).toNat

/-- A number without its sign, which `negative` gives. An integer that 64 bits hold
stays an integer; minus zero does not. -/
def number (negative : Bool) (c : Cursor) : Except Fault (Value × Cursor) := do
  let (whole, c) ← match c.rest with
    | [] => .error (c.fault .endInValue)
    | '0' :: more =>
      if (more.head?.map Char.isDigit).getD false then .error (c.advance.peekFault .badNumber)
      else .ok (['0'], c.advance)
    | x :: _ =>
      if x.isDigit then .ok (digitRun c) else .error (c.advance.fault .badNumber)
  let (places, c) ← fraction c
  let (power, c) ← exponent c
  let literal := whole ++ places ++ power
  let n := (Text.digitsValue 0 whole).getD 0
  if places.isEmpty && power.isEmpty && !negative && n < UInt64.size then return (.integer n, c)
  if places.isEmpty && power.isEmpty && negative && 0 < n && n ≤ UInt64.size / 2 then
    return (.integer (-n), c)
  if (Decimal.ofLiteral literal).isHuge then throw (c.fault .hugeNumber)
  return (.real (String.ofList (if negative then '-' :: literal else literal)), c)

/-! ### Values -/

/-- The deepest nesting that is read. -/
def maxDepth : Nat := 127

/-- A value that holds no others. -/
def atom (c : Cursor) : Except Fault (Value × Cursor) :=
  match c.rest with
  | [] => .error (c.peekFault .endInValue)
  | x :: _ =>
    if x = 'n' then do return (.null, ← word ['u', 'l', 'l'] c.advance)
    else if x = 't' then do return (.bool true, ← word ['r', 'u', 'e'] c.advance)
    else if x = 'f' then do return (.bool false, ← word ['a', 'l', 's', 'e'] c.advance)
    else if x = '"' then do
      let (s, c) ← quotedText c
      return (.text s, c)
    else if x = '-' then number true c.advance
    else if x.isDigit then number false c
    else .error (c.peekFault .noValue)

/-- The colon between a name and its value. -/
def colon (c : Cursor) : Except Fault Cursor :=
  let c := c.skipBlanks
  match c.rest with
  | [] => .error (c.peekFault .endInObject)
  | x :: _ => if x = ':' then .ok c.advance else .error (c.peekFault .noColon)

/-- Whether another item follows in a list, and the cursor before it. -/
def moreItems (first : Bool) (c : Cursor) : Except Fault (Bool × Cursor) :=
  let c := c.skipBlanks
  match c.rest with
  | [] => .error (c.peekFault .endInList)
  | x :: _ =>
    if x = ']' then .ok (false, c)
    else if first then .ok (true, c)
    else if x = ',' then
      let c := c.advance.skipBlanks
      match c.rest with
      | [] => .error (c.peekFault .endInValue)
      | y :: _ => if y = ']' then .error (c.peekFault .commaAtEnd) else .ok (true, c)
    else .error (c.peekFault .noListEnd)

/-- Whether another field follows in an object, and the cursor before its name. -/
def moreFields (first : Bool) (c : Cursor) : Except Fault (Bool × Cursor) :=
  let c := c.skipBlanks
  match c.rest with
  | [] => .error (c.peekFault .endInObject)
  | x :: _ =>
    if x = '}' then .ok (false, c)
    else if first then
      if x = '"' then .ok (true, c) else .error (c.peekFault .keyNotText)
    else if x = ',' then
      let c := c.advance.skipBlanks
      match c.rest with
      | [] => .error (c.peekFault .endInValue)
      | y :: _ =>
        if y = '"' then .ok (true, c)
        else if y = '}' then .error (c.peekFault .commaAtEnd)
        else .error (c.peekFault .keyNotText)
    else .error (c.peekFault .noObjectEnd)

mutual

/-- The value at a cursor, inside of `depth` lists and objects. -/
def value : Nat → Nat → Cursor → Except Fault (Value × Cursor)
  | 0, _, c => .error (c.fault .tooDeep)
  | n + 1, depth, c =>
    let c := c.skipBlanks
    if c.rest.head? = some '[' then
      if maxDepth ≤ depth then .error (c.peekFault .tooDeep)
      else do
        let (xs, c) ← items n (depth + 1) true c.advance
        return (.list xs, c)
    else if c.rest.head? = some '{' then
      if maxDepth ≤ depth then .error (c.peekFault .tooDeep)
      else do
        let (xs, c) ← fields n (depth + 1) true c.advance
        return (.object xs, c)
    else atom c

/-- The items of a list up to its closing bracket. -/
def items : Nat → Nat → Bool → Cursor → Except Fault (List Value × Cursor)
  | 0, _, _, c => .error (c.fault .tooDeep)
  | n + 1, depth, first, c => do
    let (more, c) ← moreItems first c
    if !more then return ([], c.advance)
    let (x, c) ← value n depth c
    let (xs, c) ← items n depth false c
    return (x :: xs, c)

/-- The fields of an object up to its closing brace. -/
def fields : Nat → Nat → Bool → Cursor → Except Fault (List (String × Value) × Cursor)
  | 0, _, _, c => .error (c.fault .tooDeep)
  | n + 1, depth, first, c => do
    let (more, c) ← moreFields first c
    if !more then return ([], c.advance)
    let (key, c) ← quotedText c
    let c ← colon c
    let (x, c) ← value n depth c
    let (xs, c) ← fields n depth false c
    return ((key, x) :: xs, c)

end

/-- A measure that is enough for the value at a cursor: every step down takes a
character or leads to one that does. -/
def Cursor.measure (c : Cursor) : Nat := 2 * c.rest.length + 2

/-- Nothing but blanks may be left. -/
def finish (c : Cursor) : Except Fault Unit :=
  let c := c.skipBlanks
  if c.rest.isEmpty then .ok () else .error (c.peekFault .moreText)

/-- The value of a whole text. -/
def Value.parse (s : String) : Except Fault Value := do
  let start := Cursor.ofText s
  let (v, c) ← value start.measure 0 start
  finish c
  return v

/-- The text at a cursor. A list or an object is refused at its bracket, any other
value after its end. -/
def expectText (c : Cursor) : Except Fault (String × Cursor) := do
  let c := c.skipBlanks
  match c.rest.head? with
  | some '[' => throw (c.fault (.wrongType (Value.list []).kind "a string"))
  | some '{' => throw (c.fault (.wrongType (Value.object []).kind "a string"))
  | _ =>
    let (v, c) ← atom c
    match v with
    | .text s => return (s, c)
    | v => throw (c.fault (.wrongType v.kind "a string"))

end Mailroom.Json
