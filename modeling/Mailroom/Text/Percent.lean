/-
Percent-encoding, and the encoding of query pairs.

A byte that must not stand for itself is written as a percent sign and two capital
hexadecimal digits. Bytes beyond ASCII are always written so.

* `encode keep` — a text in which the ASCII characters with `keep` stand for themselves;
* `decode` — the bytes of an encoded text; a percent sign without two digits after
  it stands for itself;
* `formEncode` — the encoding inside a query pair, where a blank becomes a plus sign.
-/
import Mailroom.Text.Utf8

namespace Mailroom.Text.Percent

/-- The capital hexadecimal digit of a number below 16. -/
def hexDigit (n : Nat) : Char := Char.ofNat (if n < 10 then 48 + n else 55 + n)

/-- The value of a hexadecimal digit, capital or small. -/
def hexValue? (c : Char) : Option Nat :=
  if '0' ≤ c ∧ c ≤ '9' then some (c.toNat - 48)
  else if 'A' ≤ c ∧ c ≤ 'F' then some (c.toNat - 55)
  else if 'a' ≤ c ∧ c ≤ 'f' then some (c.toNat - 87)
  else none

/-- One byte in encoded form. -/
def encodeByte (b : UInt8) : List Char := ['%', hexDigit (b.toNat / 16), hexDigit (b.toNat % 16)]

/-- One byte, encoded unless it is an ASCII character that may stand for itself. -/
def encodeUnless (keep : Char → Bool) (b : UInt8) : List Char :=
  if b.toNat < 0x80 && keep (Char.ofNat b.toNat) then [Char.ofNat b.toNat] else encodeByte b

/-- A text in encoded form. -/
def encode (keep : Char → Bool) (s : List Char) : List Char :=
  (encodeUtf8 (String.ofList s)).flatMap (encodeUnless keep)

/-- The bytes of an encoded text. -/
def decode : List Char → List UInt8
  | [] => []
  | '%' :: h :: l :: rest =>
    match hexValue? h, hexValue? l with
    | some x, some y => UInt8.ofNat (x * 16 + y) :: decode rest
    | _, _ => encodeUtf8 "%" ++ decode (h :: l :: rest)
  | c :: rest => encodeUtf8 (String.singleton c) ++ decode rest

/-- The characters that stand for themselves in a query pair. -/
def formKeep (c : Char) : Bool :=
  c.isAlphanum || c == '*' || c == '-' || c == '.' || c == '_'

/-- A text as the name or value of a query pair. -/
def formEncode (s : List Char) : List Char :=
  (encodeUtf8 (String.ofList s)).flatMap fun b => if b = 32 then ['+'] else encodeUnless formKeep b

end Mailroom.Text.Percent
