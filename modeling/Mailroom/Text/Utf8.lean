/-
Reading bytes as text when they need not be valid UTF-8.

* `decode?` — the text that the bytes encode, if they are valid;
* `decodeLossy` — a text in any case: each byte sequence that is not a character
  gives one U+FFFD, where the longest start of a well-formed character counts as
  one sequence.
-/
namespace Mailroom.Text

/-- The text whose UTF-8 form these bytes are. -/
def decode? (bytes : List UInt8) : Option String := String.fromUTF8? ⟨bytes.toArray⟩

/-- The UTF-8 form of a text. -/
def encodeUtf8 (s : String) : List UInt8 := s.toUTF8.data.toList

/-- Stands for bytes that are no character. -/
def replacement : Char := Char.ofNat 0xFFFD

/-- What a first byte announces: the number of bytes that follow, the range of the
first of them, and the bits that the first byte contributes. -/
structure Lead where
  following : Nat
  least : Nat
  greatest : Nat
  bits : Nat

/-- The sequence that a byte from 0x80 up begins; `none` for a byte that begins none. -/
def lead? (b : Nat) : Option Lead :=
  if 0xC2 ≤ b ∧ b ≤ 0xDF then some ⟨1, 0x80, 0xBF, b % 32⟩
  else if b = 0xE0 then some ⟨2, 0xA0, 0xBF, 0⟩
  else if b = 0xED then some ⟨2, 0x80, 0x9F, b % 16⟩
  else if 0xE1 ≤ b ∧ b ≤ 0xEF then some ⟨2, 0x80, 0xBF, b % 16⟩
  else if b = 0xF0 then some ⟨3, 0x90, 0xBF, 0⟩
  else if b = 0xF4 then some ⟨3, 0x80, 0x8F, 4⟩
  else if 0xF1 ≤ b ∧ b ≤ 0xF3 then some ⟨3, 0x80, 0xBF, b % 8⟩
  else none

/-- Reads the bytes that follow a first byte. A byte out of range ends the sequence
early and is left for the next one. -/
def following : Nat → Nat → Nat → Nat → List UInt8 → Char × List UInt8
  | 0, _, _, bits, rest => (Char.ofNat bits, rest)
  | _ + 1, _, _, _, [] => (replacement, [])
  | n + 1, least, greatest, bits, b :: rest =>
    if least ≤ b.toNat ∧ b.toNat ≤ greatest then
      following n 0x80 0xBF (bits * 64 + b.toNat % 64) rest
    else (replacement, b :: rest)

theorem length_following (n least greatest bits : Nat) (rest : List UInt8) :
    (following n least greatest bits rest).2.length ≤ rest.length := by
  induction n generalizing least greatest bits rest with
  | zero => simp [following]
  | succ n ih =>
    cases rest with
    | nil => simp [following]
    | cons b rest =>
      simp only [following]
      split
      · exact Nat.le_trans (ih ..) (Nat.le_succ _)
      · simp

/-- The text of any bytes, with U+FFFD where they are not valid. -/
def decodeLossy : List UInt8 → List Char
  | [] => []
  | b :: rest =>
    if b.toNat < 0x80 then Char.ofNat b.toNat :: decodeLossy rest
    else
      match lead? b.toNat with
      | none => replacement :: decodeLossy rest
      | some lead =>
        have := length_following lead.following lead.least lead.greatest lead.bits rest
        let read := following lead.following lead.least lead.greatest lead.bits rest
        read.1 :: decodeLossy read.2
termination_by bytes => bytes.length

end Mailroom.Text
