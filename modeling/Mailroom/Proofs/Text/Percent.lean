/-
Percent-encoded texts are read back, and what they can hold.

* `decode_encodeUnless`, `decode_encode` — an encoded byte, and an encoded text, is read as it was;
* `mem_encodeUtf8` — a byte below 128 stands for a character of the text;
* `mem_encodeUnless`, `mem_encode` — an encoded text holds characters of the text that may stand
  for themselves, percent signs and hexadecimal digits.
-/
import Mailroom.Proofs.Text.Encodings
import Mailroom.Text.Percent

namespace Mailroom.Text.Percent

variable {keep : Char → Bool}

theorem hexValue?_hexDigit {n : Nat} (h : n < 16) : hexValue? (hexDigit n) = some n := by
  have key : ∀ n < 16, hexValue? (hexDigit n) = some n := by decide
  exact key n h

/-! ### Reading back -/

theorem decode_cons {c : Char} (h : c ≠ '%') (rest : List Char) :
    decode (c :: rest) = encodeUtf8 (String.singleton c) ++ decode rest := by
  rw [decode]
  rintro x y zs rfl
  exact absurd rfl h

theorem encodeUtf8_ascii {n : Nat} (h : n < 0x80) :
    encodeUtf8 (String.singleton (Char.ofNat n)) = [UInt8.ofNat n] := by
  have hvalid : n.isValidChar := .inl (by omega)
  have hval : (Char.ofNat n).val.toNat = n := by
    rw [Char.ofNat, dif_pos hvalid]
    rfl
  have hsize : (Char.ofNat n).utf8Size = 1 := by
    rw [Char.utf8Size_eq_one_iff, UInt32.le_iff_toNat_le, hval]
    exact Nat.le_of_lt_succ h
  have hbyte : (Char.ofNat n).val.toUInt8 = UInt8.ofNat n := by
    rw [← UInt8.toNat_inj, UInt32.toNat_toUInt8, UInt8.toNat_ofNat', hval]
  show (String.singleton (Char.ofNat n)).toByteArray.data.toList = _
  rw [String.toByteArray_singleton, List.utf8Encode_singleton,
    String.utf8EncodeChar_eq_singleton hsize, hbyte]
  simp

/-- Every byte is read as it was, whatever stands behind it. -/
theorem decode_encodeUnless (hkeep : keep '%' = false) (b : UInt8) (rest : List Char) :
    decode (encodeUnless keep b ++ rest) = b :: decode rest := by
  have hb := b.toNat_lt
  rw [encodeUnless]
  split
  · rename_i hkept
    rw [Bool.and_eq_true, decide_eq_true_eq] at hkept
    have hpercent : Char.ofNat b.toNat ≠ '%' := fun heq =>
      absurd hkept.2 (by rw [heq, hkeep]; decide)
    rw [List.singleton_append, decode_cons hpercent, encodeUtf8_ascii hkept.1, UInt8.ofNat_toNat,
      List.singleton_append]
  · have hhigh : b.toNat / 16 < 16 := by omega
    have hlow : b.toNat % 16 < 16 := by omega
    rw [encodeByte, List.cons_append, List.cons_append, List.cons_append, List.nil_append, decode,
      hexValue?_hexDigit hhigh, hexValue?_hexDigit hlow]
    dsimp only
    rw [show b.toNat / 16 * 16 + b.toNat % 16 = b.toNat by omega, UInt8.ofNat_toNat]

theorem decode_encode (hkeep : keep '%' = false) (s : List Char) :
    decode (encode keep s) = encodeUtf8 (String.ofList s) := by
  rw [encode]
  induction encodeUtf8 (String.ofList s) with
  | nil => rfl
  | cons b bytes ih => rw [List.flatMap_cons, decode_encodeUnless hkeep, ih]

/-! ### What an encoded text holds -/

/-- All bytes of the longer forms of characters are 128 or more. -/
theorem eq_of_mem_utf8EncodeChar {c : Char} {b : UInt8} (h : b ∈ String.utf8EncodeChar c)
    (hb : b.toNat < 0x80) : Char.ofNat b.toNat = c := by
  have hhigh : ∀ {n : Nat}, 128 ≤ n ∧ n < 256 → b ≠ UInt8.ofNat n := by
    rintro n ⟨hle, hlt⟩ rfl
    rw [toNat_byte hlt] at hb
    omega
  simp only [String.utf8EncodeChar] at h
  split at h
  · rename_i hascii
    have hlt : c.val.toNat < 256 := by omega
    rw [List.mem_singleton.1 h, toNat_byte hlt]
    exact Char.ofNat_toNat c
  · split at h
    · simp only [List.mem_cons, List.not_mem_nil, or_false] at h
      rcases h with h | h
      all_goals exact absurd h (hhigh (by omega))
    · split at h
      · simp only [List.mem_cons, List.not_mem_nil, or_false] at h
        rcases h with h | h | h
        all_goals exact absurd h (hhigh (by omega))
      · simp only [List.mem_cons, List.not_mem_nil, or_false] at h
        rcases h with h | h | h | h
        all_goals exact absurd h (hhigh (by omega))

theorem mem_encodeUtf8 {s : List Char} {b : UInt8} (h : b ∈ encodeUtf8 (String.ofList s))
    (hb : b.toNat < 0x80) : Char.ofNat b.toNat ∈ s := by
  have hbytes : encodeUtf8 (String.ofList s) = s.flatMap String.utf8EncodeChar := by
    show (String.ofList s).toByteArray.data.toList = _
    rw [String.toByteArray_ofList, List.utf8Encode]
    simp
  rw [hbytes] at h
  obtain ⟨c, hc, hbc⟩ := List.mem_flatMap.1 h
  rwa [eq_of_mem_utf8EncodeChar hbc hb]

theorem mem_encodeUnless {b : UInt8} {c : Char} (h : c ∈ encodeUnless keep b) :
    (b.toNat < 0x80 ∧ c = Char.ofNat b.toNat ∧ keep c = true) ∨ c = '%' ∨
      ∃ n < 16, c = hexDigit n := by
  have hbyte := b.toNat_lt
  rw [encodeUnless] at h
  split at h
  · rename_i hkept
    rw [Bool.and_eq_true, decide_eq_true_eq] at hkept
    rw [List.mem_singleton.1 h]
    exact .inl ⟨hkept.1, rfl, hkept.2⟩
  · simp only [encodeByte, List.mem_cons, List.not_mem_nil, or_false] at h
    rcases h with h | h | h
    · exact .inr (.inl h)
    · exact .inr (.inr ⟨_, by omega, h⟩)
    · exact .inr (.inr ⟨_, by omega, h⟩)

theorem mem_encode {s : List Char} {c : Char} (h : c ∈ encode keep s) :
    (c ∈ s ∧ keep c = true) ∨ c = '%' ∨ ∃ n < 16, c = hexDigit n := by
  obtain ⟨b, hb, hc⟩ := List.mem_flatMap.1 h
  obtain ⟨hascii, rfl, hkept⟩ | hwritten := mem_encodeUnless hc
  · exact .inl ⟨mem_encodeUtf8 hb hascii, hkept⟩
  · exact .inr hwritten

end Mailroom.Text.Percent
