/-
Reading time stamps in the format of RFC 3339.

A stamp is `YYYY-MM-DD`, then `T`, `t` or a space, then `HH:MM:SS`, an optional
fraction, and `Z`, `z` or an offset `±HH:MM`. Second 60 is the leap second of any
minute; digits of the fraction beyond the ninth are dropped. The offset may be
written with the minus sign U+2212 too.

* `Rfc3339.parse` — the instant that a stamp denotes, or what is wrong with it;
* `Rfc3339.Fault.message` — the wording of each fault.

Faults are found from left to right: a text of fewer than nineteen bytes first, the
date as soon as it is read, the time of day once its fraction is read, then the
offset.
-/
import Mailroom.Text.Utf8
import Mailroom.Time.Instant

namespace Mailroom.Time.Rfc3339

/-- What is wrong with a time stamp. -/
inductive Fault where
  | tooShort
  | invalid
  | outOfRange
  | tooLong
  deriving DecidableEq, Repr

/-- The wording of a fault. -/
def Fault.message : Fault → String
  | tooShort => "premature end of input"
  | invalid => "input contains invalid characters"
  | outOfRange => "input is out of range"
  | tooLong => "trailing input"

/-- The number that exactly `n` digits at the front denote, and the rest. -/
def digits (n : Nat) (cs : List Char) : Except Fault (Nat × List Char) :=
  if (cs.take n).length < n ∨ ¬ (cs.take n).all Char.isDigit then .error .invalid
  else .ok ((Text.digitsValue 0 (cs.take n)).getD 0, cs.drop n)

/-- One of the given characters at the front, and the rest. -/
def oneOf (allowed : List Char) : List Char → Except Fault (List Char)
  | [] => .error .tooShort
  | c :: cs => if c ∈ allowed then .ok cs else .error .invalid

/-- The nanoseconds that the digits of a fraction denote, and the text after them. -/
def fraction (cs : List Char) : Except Fault (Nat × List Char) :=
  let run := cs.takeWhile Char.isDigit
  if cs.isEmpty then .error .tooShort
  else if run.isEmpty then .error .invalid
  else
    let kept := run.take 9
    .ok ((Text.digitsValue 0 kept).getD 0 * Nat.pow 10 (9 - kept.length), cs.drop run.length)

/-- Two digits, where a text of fewer than two bytes is too short for them. -/
def twoDigits (cs : List Char) : Except Fault (Nat × List Char) :=
  if (String.ofList cs).utf8ByteSize < 2 then .error .tooShort else digits 2 cs

/-- The seconds by which the local time is ahead, and the text after the offset. -/
def offset (cs : List Char) : Except Fault (Int × List Char) :=
  match cs with
  | [] => .error .tooShort
  | c :: rest =>
    if c = 'Z' ∨ c = 'z' then .ok (0, rest)
    else if c = '+' ∨ c = '-' ∨ c = Char.ofNat 0x2212 then do
      let (hours, rest) ← twoDigits rest
      let rest ← oneOf [':'] rest
      let (minutes, rest) ← twoDigits rest
      if 60 ≤ minutes then throw .outOfRange
      let size : Int := hours * 3600 + minutes * 60
      return (if c = '+' then size else -size, rest)
    else .error .invalid

/-- The greatest offset, 23 hours and 59 minutes. -/
def greatestOffset : Int := (23 * 60 + 59) * 60

/-- The date and the text after it. -/
def date (cs : List Char) : Except Fault (Date × List Char) := do
  let (year, cs) ← digits 4 cs
  let cs ← oneOf ['-'] cs
  let (month, cs) ← digits 2 cs
  let cs ← oneOf ['-'] cs
  let (day, cs) ← digits 2 cs
  let d : Date := ⟨year, month, day⟩
  if d.isValid then return (d, cs) else throw .outOfRange

/-- The second of the day, the nanoseconds in it, and the text after the time. -/
def timeOfDay (cs : List Char) : Except Fault (Nat × Nat × List Char) := do
  let (hour, cs) ← digits 2 cs
  let cs ← oneOf [':'] cs
  let (minute, cs) ← digits 2 cs
  let cs ← oneOf [':'] cs
  let (second, cs) ← digits 2 cs
  let (nanos, cs) ← if cs.head? = some '.' then fraction cs.tail else pure (0, cs)
  if 24 ≤ hour ∨ 60 ≤ minute ∨ 61 ≤ second then throw .outOfRange
  let leap := second = 60
  return (hour * 3600 + minute * 60 + (if leap then 59 else second),
    if leap then nanos + 1000000000 else nanos, cs)

/-- The instant that a stamp denotes. -/
def parseChars (cs : List Char) : Except Fault Instant := do
  if (String.ofList cs).utf8ByteSize < 19 then throw .tooShort
  let (d, cs) ← date cs
  let cs ← oneOf ['T', 't', ' '] cs
  let (second, nanos, cs) ← timeOfDay cs
  let (ahead, cs) ← offset cs
  if ahead < -greatestOffset ∨ greatestOffset < ahead then throw .outOfRange
  if !cs.isEmpty then throw .tooLong
  return ⟨d.dayNumber * 86400 + second - ahead, nanos⟩

/-- The instant that a stamp denotes. -/
def parse (s : String) : Except Fault Instant := parseChars s.toList

end Mailroom.Time.Rfc3339
