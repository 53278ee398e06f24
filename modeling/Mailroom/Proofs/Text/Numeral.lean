/-
Numerals are read as the numbers that they were written for.

* `natural?_toDigits`, `natural?_toString` — a number in decimal digits;
* `unsigned?_toDigits` — the same up to a limit;
* `natural?_eq_some_iff`, `unsigned?_eq_some_iff` — how a number can be spelled: with leading
  zeros, and with a plus sign where one is allowed.
-/
import Mailroom.Text.Numeral

namespace Mailroom.Text

theorem digitsValue_of_isDigit {cs : List Char} (h : ∀ c ∈ cs, c.isDigit = true) (acc : Nat) :
    digitsValue acc cs = some (Nat.ofDigitChars 10 cs acc) := by
  induction cs generalizing acc with
  | nil => simp [digitsValue]
  | cons c cs ih =>
    rw [digitsValue, if_pos (h c List.mem_cons_self), Nat.ofDigitChars_cons, Nat.mul_comm 10]
    exact ih (fun d hd => h d (List.mem_cons_of_mem _ hd)) _

theorem natural?_toDigits (n : Nat) : natural? (Nat.toDigits 10 n) = some n := by
  have hdigits : ∀ c ∈ Nat.toDigits 10 n, c.isDigit = true := fun c hc =>
    Nat.isDigit_of_mem_toDigits (by decide) (by decide) hc
  rw [natural?, if_neg (by simp), digitsValue_of_isDigit hdigits,
    Nat.ofDigitChars_ten_toDigits]

theorem natural?_toString (n : Nat) : natural? (toString n).toList = some n := by
  rw [Nat.toString_eq_repr, Nat.toList_repr, natural?_toDigits]

theorem head?_toDigits_ne {c : Char} (hc : c.isDigit = false) (n : Nat) :
    (Nat.toDigits 10 n).head? ≠ some c := by
  intro hhead
  rw [Nat.isDigit_of_mem_toDigits (by decide) (by decide) (List.mem_of_head? hhead)] at hc
  exact Bool.false_ne_true hc.symm

theorem unsigned?_toDigits {limit n : Nat} (h : n ≤ limit) :
    unsigned? limit (Nat.toDigits 10 n) = some n := by
  rw [unsigned?, if_neg (head?_toDigits_ne (by decide) n), natural?_toDigits,
    Option.filter_some, if_pos (by simpa using h)]

theorem le_of_unsigned? {limit n : Nat} {cs : List Char} (h : unsigned? limit cs = some n) :
    n ≤ limit := by
  rw [unsigned?, Option.filter_eq_some_iff] at h
  exact of_decide_eq_true h.2

/-! ### Spellings of a number -/

theorem toNat_of_isDigit {c : Char} (h : c.isDigit = true) : 48 ≤ c.toNat ∧ c.toNat ≤ 57 :=
  Char.isDigit_iff_toNat.1 h

theorem digitChar_of_isDigit {c : Char} (h : c.isDigit = true) :
    Nat.digitChar (c.toNat - 48) = c := by
  obtain ⟨hlow, hhigh⟩ := toNat_of_isDigit h
  refine Char.toNat_inj.1 ?_
  rw [Nat.toNat_digitChar_of_lt_ten (by omega)]
  omega

/-- Digits after a number other than zero make the numeral of that number longer. -/
theorem toDigits_of_digitsValue {cs : List Char} {acc n : Nat} (hacc : 0 < acc)
    (h : digitsValue acc cs = some n) : Nat.toDigits 10 n = Nat.toDigits 10 acc ++ cs := by
  induction cs generalizing acc with
  | nil =>
    obtain rfl := Option.some.inj h
    rw [List.append_nil]
  | cons c cs ih =>
    rw [digitsValue] at h
    split at h
    · rename_i hdigit
      obtain ⟨hlow, hhigh⟩ := toNat_of_isDigit hdigit
      have hlonger : Nat.toDigits 10 (acc * 10 + (c.toNat - 48)) = Nat.toDigits 10 acc ++ [c] := by
        rw [Nat.mul_comm, ← Nat.toDigits_append_toDigits (by omega) hacc (by omega),
          Nat.toDigits_of_lt_base (n := c.toNat - 48) (by omega), digitChar_of_isDigit hdigit]
      rw [ih (by omega) h, hlonger, List.append_assoc, List.singleton_append]
    · exact absurd h (by simp)

theorem digitsValue_zeros (zeros : Nat) (cs : List Char) :
    digitsValue 0 (List.replicate zeros '0' ++ cs) = digitsValue 0 cs := by
  induction zeros with
  | zero => rfl
  | succ zeros ih => exact ih

theorem exists_zeros_of_digitsValue {cs : List Char} {n : Nat} (hn : 0 < n)
    (h : digitsValue 0 cs = some n) :
    ∃ zeros, cs = List.replicate zeros '0' ++ Nat.toDigits 10 n := by
  induction cs with
  | nil =>
    obtain rfl := Option.some.inj h
    exact absurd hn (Nat.lt_irrefl 0)
  | cons c cs ih =>
    by_cases hzero : c = '0'
    · subst hzero
      obtain ⟨zeros, rfl⟩ := ih h
      exact ⟨zeros + 1, rfl⟩
    · -- from the first digit that is not a zero on, the text is the numeral itself
      rw [digitsValue] at h
      split at h
      · rename_i hdigit
        obtain ⟨hlow, hhigh⟩ := toNat_of_isDigit hdigit
        have hne : c.toNat ≠ 48 := fun heq => hzero (Char.toNat_inj.1 heq)
        rw [Nat.zero_mul, Nat.zero_add] at h
        refine ⟨0, ?_⟩
        rw [toDigits_of_digitsValue (by omega) h, Nat.toDigits_of_lt_base (by omega),
          digitChar_of_isDigit hdigit]
        rfl
      · exact absurd h (by simp)

/-- A number other than zero is spelled with any number of leading zeros, and in no other way. -/
theorem natural?_eq_some_iff {cs : List Char} {n : Nat} (hn : 0 < n) :
    natural? cs = some n ↔ ∃ zeros, cs = List.replicate zeros '0' ++ Nat.toDigits 10 n := by
  constructor
  · intro h
    rw [natural?] at h
    split at h
    · exact absurd h (by simp)
    · exact exists_zeros_of_digitsValue hn h
  · rintro ⟨zeros, rfl⟩
    have hvalue := natural?_toDigits n
    rw [natural?, if_neg (by simp)] at hvalue
    rw [natural?, if_neg (by simp), digitsValue_zeros, hvalue]

/-- The same with a plus sign allowed in front. -/
theorem unsigned?_eq_some_iff {limit n : Nat} {cs : List Char} (hn : 0 < n) (hlimit : n ≤ limit) :
    unsigned? limit cs = some n ↔ ∃ sign zeros, (sign = [] ∨ sign = ['+']) ∧
      cs = sign ++ (List.replicate zeros '0' ++ Nat.toDigits 10 n) := by
  have hsign : ∀ zeros, (List.replicate zeros '0' ++ Nat.toDigits 10 n).head? ≠ some '+' := by
    intro zeros hplus
    have hmem := List.mem_of_head? hplus
    rcases List.mem_append.1 hmem with hmem | hmem
    · exact absurd (List.eq_of_mem_replicate hmem) (by decide)
    · exact absurd (Nat.isDigit_of_mem_toDigits (by decide) (by decide) hmem) (by decide)
  rw [unsigned?, Option.filter_eq_some_iff]
  simp only [hlimit, decide_true, and_true]
  constructor
  · intro h
    obtain ⟨zeros, hzeros⟩ := (natural?_eq_some_iff hn).1 h
    split at hzeros
    · rename_i hplus
      obtain ⟨rest, rfl⟩ := List.head?_eq_some_iff.1 hplus
      exact ⟨['+'], zeros, .inr rfl, congrArg ('+' :: ·) hzeros⟩
    · exact ⟨[], zeros, .inl rfl, hzeros⟩
  · rintro ⟨sign, zeros, rfl | rfl, rfl⟩
    · rw [List.nil_append, if_neg (hsign zeros)]
      exact (natural?_eq_some_iff hn).2 ⟨zeros, rfl⟩
    · exact (natural?_eq_some_iff hn).2 ⟨zeros, rfl⟩

end Mailroom.Text
