/-
Identifiers that sort by time.

An identifier has 26 digits to the base 32: ten for the time in milliseconds, sixteen
for a random number of 80 bits. The digits leave out the letters I, L, O and U.

* `Ulid.text` — the identifier of a time and a random number;
* `messageId` — the same as the id of a message, in small letters.
-/
namespace Mailroom

namespace Ulid

/-- The digits to the base 32. -/
def alphabet : List Char := "0123456789ABCDEFGHJKMNPQRSTVWXYZ".toList

/-- The lowest `n` digits of a number. -/
def digits : Nat → Nat → List Char
  | 0, _ => []
  | n + 1, x => digits n (x / 32) ++ [alphabet.getD (x % 32) '0']

/-- The identifier of a time and a random number. -/
def text (millis random : Nat) : String := String.ofList (digits 10 millis ++ digits 16 random)

end Ulid

/-- The id of a new message. -/
def messageId (millis random : Nat) : String :=
  "msg-" ++ String.ofList ((Ulid.text millis random).toList.map Char.toLower)

end Mailroom
