/-
A text that is read as a time stamp is one.

Reading takes a stamp apart from left to right. Every part that it takes is written as a part of a
stamp is, so what is accepted as a whole is a stamp of the format, and its instant is the one that
the stamp denotes.

* `padded_ofDigitChars` — digits are written as the number that they denote is;
* `eq_of_digits`, `eq_of_date`, `eq_of_timeOfDay`, `eq_of_offset` — what each part is read from;
* `parseChars_eq_ok_iff` — the texts that are accepted, and what they are read as.
-/
import Mailroom.Proofs.Time.Rfc3339Reading
import Mathlib.Data.List.Induction

namespace Mailroom

/-- Digits are the number that they denote, with zeros in front up to their width. -/
theorem Text.padded_ofDigitChars {run : List Char} (hne : run ≠ [])
    (hrun : ∀ c ∈ run, c.isDigit = true) :
    Nat.ofDigitChars 10 run 0 < 10 ^ run.length ∧
      padded run.length (Nat.ofDigitChars 10 run 0) = run := by
  -- from the end: the last digit is the remainder by 10, and those before it are the quotient
  induction run using List.reverseRecOn with
  | nil => exact absurd rfl hne
  | append_singleton run c ih =>
    have hc := hrun c (List.mem_append_right _ (List.mem_singleton_self c))
    obtain ⟨hlow, hhigh⟩ := toNat_of_isDigit hc
    have hchar := digitChar_of_isDigit hc
    have hvalue : Nat.ofDigitChars 10 (run ++ [c]) 0 =
        10 * Nat.ofDigitChars 10 run 0 + (c.toNat - 48) := by
      rw [Nat.ofDigitChars_append, Nat.ofDigitChars_cons, Nat.ofDigitChars_nil]
      rfl
    rw [hvalue, List.length_append, List.length_singleton]
    by_cases hnil : run = []
    · subst hnil
      rw [Nat.ofDigitChars_nil, Nat.mul_zero, Nat.zero_add, List.length_nil, Nat.zero_add,
        padded_one (by omega), hchar]
      exact ⟨by omega, rfl⟩
    · obtain ⟨hlt, hrest⟩ := ih hnil fun d hd => hrun d (List.mem_append_left _ hd)
      have hquot : (10 * Nat.ofDigitChars 10 run 0 + (c.toNat - 48)) / 10 =
          Nat.ofDigitChars 10 run 0 := by omega
      have hrem : (10 * Nat.ofDigitChars 10 run 0 + (c.toNat - 48)) % 10 = c.toNat - 48 := by omega
      rw [padded_succ (List.length_pos_iff.2 hnil), hquot, hrem, hrest, hchar, Nat.pow_succ]
      exact ⟨by omega, rfl⟩

namespace Time.Rfc3339

/-! ### Parts -/

section

variable {cs rest : List Char} {n k : Nat}

theorem eq_of_digits (hn : 0 < n) (h : digits n cs = .ok (k, rest)) :
    k < 10 ^ n ∧ cs = Text.padded n k ++ rest := by
  rw [digits] at h
  split at h
  · cases h
  · rename_i hshape
    obtain ⟨hlength, hdigits⟩ := not_or.1 hshape
    obtain ⟨hk, rfl⟩ := Prod.mk.inj (Except.ok.inj h)
    have hrun := List.all_eq_true.1 (not_not.1 hdigits)
    have hlength : (cs.take n).length = n :=
      Nat.le_antisymm (List.length_take_le ..) (Nat.not_lt.1 hlength)
    rw [Text.digitsValue_of_isDigit hrun, Option.getD_some] at hk
    obtain ⟨hlt, hpadded⟩ := Text.padded_ofDigitChars
      (List.length_pos_iff.1 (by rw [hlength]; exact hn)) hrun
    rw [hlength, hk] at hlt hpadded
    exact ⟨hlt, by rw [hpadded, List.take_append_drop]⟩

theorem eq_of_twoDigits (h : twoDigits cs = .ok (k, rest)) :
    k < 100 ∧ cs = Text.padded 2 k ++ rest := by
  rw [twoDigits] at h
  split at h
  · cases h
  · exact eq_of_digits (by decide) h

theorem eq_of_oneOf {allowed : List Char} (h : oneOf allowed cs = .ok rest) :
    ∃ c ∈ allowed, cs = c :: rest := by
  cases cs with
  | nil => cases h
  | cons c cs =>
    rw [oneOf] at h
    split at h
    · rename_i hc
      exact ⟨c, hc, by rw [Except.ok.inj h]⟩
    · cases h

theorem eq_of_one {c : Char} (h : oneOf [c] cs = .ok rest) : cs = c :: rest := by
  obtain ⟨d, hd, rfl⟩ := eq_of_oneOf h
  rw [List.mem_singleton.1 hd]

theorem eq_of_date {d : Date} (h : date cs = .ok (d, rest)) :
    d.isValid = true ∧ ∃ year : Fin 10000, d.year = year ∧
      cs = Text.padded 4 year ++ '-' :: (Text.padded 2 d.month ++ '-' ::
        (Text.padded 2 d.day ++ rest)) := by
  simp only [date, bind_eq_ok, Prod.exists] at h
  obtain ⟨year, rest₁, hyear, rest₂, hdash, month, rest₃, hmonth, rest₄, hdash', day, rest₅, hday,
    h⟩ := h
  split at h
  · rename_i hvalid
    obtain ⟨rfl, rfl⟩ := Prod.mk.inj (Except.ok.inj h)
    obtain ⟨hlt, rfl⟩ := eq_of_digits (by decide) hyear
    obtain rfl := eq_of_one hdash
    obtain ⟨-, rfl⟩ := eq_of_digits (by decide) hmonth
    obtain rfl := eq_of_one hdash'
    obtain ⟨-, rfl⟩ := eq_of_digits (by decide) hday
    exact ⟨hvalid, ⟨year, hlt⟩, rfl, rfl⟩
  · cases h

theorem eq_of_fraction (h : fraction cs = .ok (k, rest)) :
    ∃ run : List Char, run ≠ [] ∧ (∀ c ∈ run, c.isDigit = true) ∧ cs = run ++ rest := by
  simp only [fraction] at h
  split at h
  · cases h
  · split at h
    · cases h
    · rename_i hrun
      obtain ⟨-, rfl⟩ := Prod.mk.inj (Except.ok.inj h)
      have hprefix := List.takeWhile_prefix (l := cs) Char.isDigit
      refine ⟨cs.takeWhile Char.isDigit, by simpa using hrun, fun c hc => ?_, ?_⟩
      · exact List.all_eq_true.1 List.all_takeWhile c hc
      · exact (List.prefix_iff_eq_append.1 hprefix).symm

/-- A time of day ends with the fraction of its second, if it has one. -/
theorem eq_of_timeOfDay {count nanos : Nat} (h : timeOfDay cs = .ok (count, nanos, rest)) :
    ∃ (hour : Fin 24) (minute : Fin 60) (second : Fin 61) (run : List Char),
      (∀ c ∈ run, c.isDigit = true) ∧
      cs = Text.padded 2 hour ++ ':' :: (Text.padded 2 minute ++ ':' :: (Text.padded 2 second ++
        ((if run = [] then [] else '.' :: run) ++ rest))) := by
  simp only [timeOfDay, bind_eq_ok, Prod.exists] at h
  obtain ⟨hour, rest₁, hhour, rest₂, hcolon, minute, rest₃, hminute, rest₄, hcolon', second, tail,
    hsecond, h⟩ := h
  obtain ⟨-, rfl⟩ := eq_of_digits (by decide) hhour
  obtain rfl := eq_of_one hcolon
  obtain ⟨-, rfl⟩ := eq_of_digits (by decide) hminute
  obtain rfl := eq_of_one hcolon'
  obtain ⟨-, rfl⟩ := eq_of_digits (by decide) hsecond
  -- the bounds are checked last, after the fraction has been read
  have hinside : hour < 24 ∧ minute < 60 ∧ second < 61 := by
    by_contra hinside
    have hout : 24 ≤ hour ∨ 60 ≤ minute ∨ 61 ≤ second := by omega
    simp only [hout, if_true] at h
    split at h
    · obtain ⟨x, -, hx⟩ := bind_eq_ok.1 h
      cases hx
    · cases h
  obtain ⟨hhours, hminutes, hseconds⟩ := hinside
  have hinside : ¬ (24 ≤ hour ∨ 60 ≤ minute ∨ 61 ≤ second) := by omega
  simp only [hinside, if_false] at h
  split at h
  · rename_i hdot
    obtain ⟨x, hfraction, hx⟩ := bind_eq_ok.1 h
    obtain ⟨-, -, rfl⟩ : _ ∧ _ ∧ x.2 = rest := by simpa [pure, Except.pure] using hx
    obtain ⟨run, hne, hrun, htail⟩ := eq_of_fraction hfraction
    obtain ⟨tail, rfl⟩ := List.head?_eq_some_iff.1 hdot
    obtain rfl : tail = run ++ x.2 := htail
    exact ⟨⟨hour, hhours⟩, ⟨minute, hminutes⟩, ⟨second, hseconds⟩, run, hrun, by rw [if_neg hne]; rfl⟩
  · obtain ⟨-, -, rfl⟩ : _ ∧ _ ∧ tail = rest := by simpa [pure, Except.pure] using h
    exact ⟨⟨hour, hhours⟩, ⟨minute, hminutes⟩, ⟨second, hseconds⟩, [], nofun, rfl⟩

theorem exists_sign {c : Char} (h : c = '+' ∨ c = '-' ∨ c = Char.ofNat 0x2212) :
    ∃ sign : Sign, sign.char = c := by
  rcases h with rfl | rfl | rfl
  · exact ⟨.plus, rfl⟩
  · exact ⟨.hyphen, rfl⟩
  · exact ⟨.minus, rfl⟩

/-- An offset of less than a day is one that a stamp can have. -/
theorem eq_of_offset {ahead : Int} (h : offset cs = .ok (ahead, rest))
    (hsize : ¬ (ahead < -greatestOffset ∨ greatestOffset < ahead)) :
    ∃ z : Zone, cs = z.chars ++ rest := by
  rw [offset.eq_def] at h
  cases cs with
  | nil => cases h
  | cons c cs =>
    dsimp only at h
    split at h
    · rename_i hletter
      obtain ⟨-, rfl⟩ := Prod.mk.inj (Except.ok.inj h)
      rcases hletter with rfl | rfl
      · exact ⟨.universal false, rfl⟩
      · exact ⟨.universal true, rfl⟩
    · split at h
      · rename_i hsign
        simp only [bind_eq_ok, Prod.exists] at h
        obtain ⟨hours, rest₁, hhours, rest₂, hcolon, minutes, rest₃, hminutes, h⟩ := h
        obtain ⟨-, rfl⟩ := eq_of_twoDigits hhours
        obtain rfl := eq_of_one hcolon
        obtain ⟨-, rfl⟩ := eq_of_twoDigits hminutes
        split at h
        · cases h
        · obtain ⟨hahead, rfl⟩ := Prod.mk.inj (Except.ok.inj h)
          obtain ⟨sign, rfl⟩ := exists_sign hsign
          have hlt : hours < 24 := by
            unfold greatestOffset at hsize
            split at hahead <;> omega
          refine ⟨.offset sign ⟨hours, hlt⟩ ⟨minutes, by omega⟩, ?_⟩
          rw [Zone.chars, List.cons_append, List.append_assoc]
          rfl
      · cases h

/-! ### Whole stamps -/

theorem exists_separator {c : Char} (h : c ∈ ['T', 't', ' ']) :
    ∃ separator : Separator, separator.char = c := by
  simp only [List.mem_cons, List.not_mem_nil, or_false] at h
  rcases h with rfl | rfl | rfl
  · exact ⟨.capital, rfl⟩
  · exact ⟨.small, rfl⟩
  · exact ⟨.blank, rfl⟩

/-- What is accepted is a stamp. -/
theorem exists_chars_eq {i : Instant} (h : parseChars cs = .ok i) :
    ∃ t : Timestamp, t.chars = cs := by
  rw [parseChars] at h
  split at h
  · cases h
  · simp only [bind_eq_ok, Prod.exists] at h
    obtain ⟨d, rest₁, hdate, rest₂, hseparator, count, nanos, rest₃, htime, ahead, rest₄, hoffset,
      h⟩ := h
    obtain ⟨hvalid, year, hyear, rfl⟩ := eq_of_date hdate
    obtain ⟨c, hc, rfl⟩ := eq_of_oneOf hseparator
    obtain ⟨separator, rfl⟩ := exists_separator hc
    obtain ⟨hour, minute, second, run, hrun, rfl⟩ := eq_of_timeOfDay htime
    split at h
    · cases h
    · rename_i hsize
      obtain ⟨z, rfl⟩ := eq_of_offset hoffset hsize
      split at h
      · cases h
      · rename_i hend
        obtain rfl : rest₄ = [] := by simpa using hend
        obtain ⟨dateYear, month, day⟩ := d
        obtain rfl : dateYear = (year : Nat) := hyear
        exact ⟨⟨year, month, day, hvalid, separator, hour, minute, second, run, hrun, z⟩, by
          simp [Timestamp.chars, Timestamp.dateChars, Timestamp.timeChars, Timestamp.fractionChars,
            List.append_assoc]⟩

end

/-- A text is read as an instant if and only if it is a stamp that denotes it. -/
theorem parseChars_eq_ok_iff {cs : List Char} {i : Instant} :
    parseChars cs = .ok i ↔ ∃ t : Timestamp, t.chars = cs ∧ t.instant = i := by
  constructor
  · intro h
    obtain ⟨t, rfl⟩ := exists_chars_eq h
    rw [parseChars_chars, Except.ok.injEq] at h
    exact ⟨t, rfl, h⟩
  · rintro ⟨t, rfl, rfl⟩
    exact parseChars_chars t

end Time.Rfc3339

end Mailroom
