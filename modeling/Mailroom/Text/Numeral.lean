/-
Decimal numerals.

* `natural?` — the number that a non-empty run of digits denotes;
* `unsigned?` — the same with a plus sign allowed in front and an upper limit;
* `padded` — a number with leading zeros up to a width.
-/
namespace Mailroom.Text

/-- The number a run of digits denotes when `acc` stands in front of it. -/
def digitsValue (acc : Nat) : List Char → Option Nat
  | [] => some acc
  | c :: cs => if c.isDigit then digitsValue (acc * 10 + (c.toNat - 48)) cs else none

/-- A non-empty run of decimal digits. -/
def natural? (cs : List Char) : Option Nat :=
  if cs.isEmpty then none else digitsValue 0 cs

/-- A decimal numeral up to `limit`, with or without a plus sign. -/
def unsigned? (limit : Nat) (cs : List Char) : Option Nat :=
  (natural? (if cs.head? = some '+' then cs.tail else cs)).filter (· ≤ limit)

/-- The greatest number of 32 bits. -/
def maxWord : Nat := UInt32.size - 1

/-- The decimal digits of a number, at least `width` of them. -/
def padded (width n : Nat) : List Char :=
  let digits := Nat.toDigits 10 n
  List.replicate (width - digits.length) '0' ++ digits

end Mailroom.Text
