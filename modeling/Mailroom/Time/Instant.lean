/-
Instants of universal time, and the text in which they are stored.

An instant is a second since 1970 and a fraction of it. In a leap second the
fraction goes on counting: it is then at least a whole second, and the text shows
second 60.

* `Instant.stamp` — the stored text, `YYYY-MM-DDTHH:MM:SS.mmmZ`; a year outside
  0 to 9999 is written with a sign and as many digits as it needs;
* `Instant.ofUnix?` — the instant with this Unix time, if the calendar reaches it;
* `Instant.minusDays?` — the instant so many days earlier.
-/
import Mailroom.Text.Numeral
import Mailroom.Time.Calendar

namespace Mailroom.Time

/-- A second since 1970-01-01T00:00:00Z and the nanoseconds passed in it. -/
structure Instant where
  seconds : Int
  nanos : Nat
  deriving DecidableEq, Repr

namespace Instant

/-- The first second that the calendar reaches, in the year −262143. -/
def firstSecond : Int := -8334601228800

/-- The last second that the calendar reaches, in the year 262142. -/
def lastSecond : Int := 8210266876799

/-- Whether the calendar reaches this instant. -/
def inRange (t : Instant) : Bool := firstSecond ≤ t.seconds && t.seconds ≤ lastSecond

/-- The instant with this Unix time. A fraction of a second or more is a leap second,
which only the last second of a minute can have. -/
def ofUnix? (seconds : Int) (nanos : Nat) : Option Instant :=
  let t : Instant := ⟨seconds, nanos⟩
  let leap := 1000000000 ≤ nanos
  if t.inRange && nanos < 2000000000 && (!leap || seconds % 60 == 59) then some t else none

/-- The instant so many days of 24 hours earlier, if the calendar reaches it. Going
back from a leap second starts at the second that follows it. -/
def minusDays? (t : Instant) (days : Nat) : Option Instant :=
  if days = 0 then some t
  else
    let start : Instant := if 1000000000 ≤ t.nanos then ⟨t.seconds + 1, t.nanos - 1000000000⟩ else t
    let earlier : Instant := ⟨start.seconds - days * 86400, start.nanos⟩
    if earlier.inRange then some earlier else none

/-- The date of an instant. -/
def date (t : Instant) : Date := Date.ofDayNumber (t.seconds / 86400)

/-- The second of the day, from 0 to 86399. -/
def secondOfDay (t : Instant) : Nat := (t.seconds % 86400).toNat

/-- A year of four digits, or with a sign if it lies outside 0 to 9999. -/
def yearText (year : Int) : List Char :=
  if 0 ≤ year ∧ year ≤ 9999 then Text.padded 4 year.toNat
  else (if year < 0 then '-' else '+') :: Text.padded 4 year.natAbs

/-- The characters of the stored text. -/
def stampChars (t : Instant) : List Char :=
  let d := t.date
  let s := t.secondOfDay
  yearText d.year ++ '-' :: Text.padded 2 d.month ++ '-' :: Text.padded 2 d.day ++
    'T' :: Text.padded 2 (s / 3600) ++ ':' :: Text.padded 2 (s / 60 % 60) ++
    ':' :: Text.padded 2 (s % 60 + t.nanos / 1000000000) ++
    '.' :: Text.padded 3 (t.nanos % 1000000000 / 1000000) ++ ['Z']

/-- The text in which an instant is stored: to the millisecond, cut off and not rounded. -/
def stamp (t : Instant) : String := String.ofList t.stampChars

/-- The instant so many milliseconds later. -/
def plusMillis (t : Instant) (n : Nat) : Instant :=
  let total := t.nanos + n * 1000000
  ⟨t.seconds + total / 1000000000, total % 1000000000⟩

/-- Milliseconds since 1970, for instants from then on. -/
def unixMillis (t : Instant) : Nat := t.seconds.toNat * 1000 + t.nanos / 1000000

end Instant

end Mailroom.Time
