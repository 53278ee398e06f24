/-
Time stamps in the format of RFC 3339 are read as what they denote.

A stamp is given here by its parts, each within the bounds that the format sets for it. There are
three ways to separate date and time, two letters for universal time, and two ways to write a minus
sign.

* `Timestamp`, `Timestamp.chars` — a stamp in its parts, and how it is written;
* `Timestamp.instant` — the instant that it denotes: local time less the offset;
* `digits_padded`, `date_chars`, `timeOfDay_chars`, `offset_chars` — how its parts are read;
* `parseChars_chars` — the whole stamp.
-/
import Mailroom.Proofs.EnvelopeLine
import Mailroom.Proofs.Outcome
import Mailroom.Proofs.Text.Numeral
import Mailroom.Proofs.Time.StampOrder
import Mailroom.Time.Rfc3339

namespace Mailroom.Time.Rfc3339

/-! ### Stamps -/

/-- What stands between date and time. -/
inductive Separator where
  | capital
  | small
  | blank
  deriving DecidableEq, Repr

/-- The character between date and time. -/
def Separator.char : Separator → Char
  | capital => 'T'
  | small => 't'
  | blank => ' '

/-- The sign of an offset. -/
inductive Sign where
  | plus
  | hyphen
  | minus
  deriving DecidableEq, Repr

/-- The character of a sign. -/
def Sign.char : Sign → Char
  | plus => '+'
  | hyphen => '-'
  | minus => Char.ofNat 0x2212

/-- What a stamp ends with: a letter for universal time, or the offset of the local time. -/
inductive Zone where
  | universal (small : Bool)
  | offset (sign : Sign) (hours : Fin 24) (minutes : Fin 60)
  deriving DecidableEq, Repr

namespace Zone

/-- How the end of a stamp is written. -/
def chars : Zone → List Char
  | universal small => [if small then 'z' else 'Z']
  | offset sign hours minutes =>
    sign.char :: (Text.padded 2 hours ++ ':' :: Text.padded 2 minutes)

/-- The seconds by which the local time is ahead of universal time. -/
def ahead : Zone → Int
  | universal _ => 0
  | offset .plus hours minutes => hours * 3600 + minutes * 60
  | offset _ hours minutes => -(hours * 3600 + minutes * 60)

end Zone

/-- A stamp in its parts. Second 60 is a leap second; there may be no digits of a fraction. -/
structure Timestamp where
  year : Fin 10000
  month : Nat
  day : Nat
  isValid : (Date.mk year month day).isValid = true
  separator : Separator
  hour : Fin 24
  minute : Fin 60
  second : Fin 61
  fraction : List Char
  isDigit : ∀ c ∈ fraction, c.isDigit = true
  zone : Zone

namespace Timestamp

variable (t : Timestamp)

/-- The date of a stamp. -/
def date : Date := ⟨t.year, t.month, t.day⟩

theorem month_lt : t.month < 100 := by
  have hvalid := t.isValid
  simp only [Date.isValid, Bool.and_eq_true, decide_eq_true_eq] at hvalid
  omega

theorem day_lt : t.day < 100 := by
  have hvalid := t.isValid
  simp only [Date.isValid, daysInMonth, Bool.and_eq_true, decide_eq_true_eq] at hvalid
  split_ifs at hvalid <;> omega

/-- How the date is written. -/
def dateChars : List Char :=
  Text.padded 4 t.year ++ '-' :: (Text.padded 2 t.month ++ '-' :: Text.padded 2 t.day)

/-- How a fraction of the second is written. -/
def fractionChars : List Char := if t.fraction = [] then [] else '.' :: t.fraction

/-- How the time of day is written. -/
def timeChars : List Char :=
  Text.padded 2 t.hour ++ ':' :: (Text.padded 2 t.minute ++ ':' :: (Text.padded 2 t.second ++
    t.fractionChars))

/-- How a stamp is written. -/
def chars : List Char := t.dateChars ++ t.separator.char :: (t.timeChars ++ t.zone.chars)

/-- The nanoseconds of the fraction: nine digits, where zeros stand for those that are missing. -/
def nanos : Nat := Nat.ofDigitChars 10 ((t.fraction ++ List.replicate 9 '0').take 9) 0

/-- The instant that a stamp denotes. A leap second goes on in the second before it. -/
def instant : Instant :=
  ⟨t.date.dayNumber * 86400 +
      (t.hour * 3600 + t.minute * 60 + min t.second.val 59 : Nat) - t.zone.ahead,
    if t.second = 60 then t.nanos + 1000000000 else t.nanos⟩

end Timestamp

/-! ### How the parts are read -/

theorem length_le_utf8ByteSize (cs : List Char) : cs.length ≤ (String.ofList cs).utf8ByteSize := by
  induction cs with
  | nil => exact Nat.zero_le _
  | cons c cs ih =>
    have hc := c.utf8Size_pos
    rw [String.ofList_cons, String.utf8ByteSize_append, String.utf8ByteSize_singleton,
      List.length_cons]
    omega

theorem digits_padded {n k : Nat} (hn : 0 < n) (hk : k < 10 ^ n) (rest : List Char) :
    digits n (Text.padded n k ++ rest) = .ok (k, rest) := by
  have hlength := Text.length_padded hn hk
  have hdigits : (Text.padded n k).all Char.isDigit = true :=
    List.all_eq_true.2 fun c hc => Text.isDigit_of_mem_padded hc
  have hvalue : Text.digitsValue 0 (Text.padded n k) = some k := by
    rw [Text.padded, Text.digitsValue_zeros, Text.digitsValue_of_isDigit,
      Nat.ofDigitChars_ten_toDigits]
    exact fun c hc => Nat.isDigit_of_mem_toDigits (by decide) (by decide) hc
  rw [digits, List.take_left' hlength, List.drop_left' hlength, if_neg, hvalue]
  · rfl
  · rw [not_or, not_not]
    exact ⟨by omega, hdigits⟩

theorem twoDigits_padded {k : Nat} (hk : k < 100) (rest : List Char) :
    twoDigits (Text.padded 2 k ++ rest) = .ok (k, rest) := by
  have hlength : (Text.padded 2 k).length = 2 := Text.length_padded (by decide) hk
  have hsize := length_le_utf8ByteSize (Text.padded 2 k ++ rest)
  rw [List.length_append, hlength] at hsize
  rw [twoDigits, if_neg (by omega), digits_padded (by decide) hk]

theorem oneOf_cons {allowed : List Char} {c : Char} (h : c ∈ allowed) (cs : List Char) :
    oneOf allowed (c :: cs) = .ok cs := if_pos h

theorem ok_bind {ε α β : Type} (a : α) (f : α → Except ε β) : (.ok a >>= f) = f a := rfl

theorem date_chars (t : Timestamp) (rest : List Char) :
    date (t.dateChars ++ rest) = .ok (t.date, rest) := by
  rw [date, Timestamp.dateChars]
  simp only [List.append_assoc, List.cons_append, digits_padded (n := 4) (by decide) t.year.isLt,
    digits_padded (n := 2) (by decide) t.month_lt, digits_padded (n := 2) (by decide) t.day_lt,
    ok_bind, oneOf_cons (List.mem_singleton_self '-'), t.isValid]
  rfl

/-- A run of digits is read as nanoseconds, up to the first character that is no digit. -/
theorem fraction_digits {run rest : List Char} (hne : run ≠ []) (hrun : ∀ c ∈ run, c.isDigit = true)
    (hrest : ∀ c ∈ rest.head?, c.isDigit = false) :
    fraction (run ++ rest) =
      .ok (Nat.ofDigitChars 10 ((run ++ List.replicate 9 '0').take 9) 0, rest) := by
  have htake : (run ++ rest).takeWhile Char.isDigit = run := by
    rw [List.takeWhile_append_of_pos hrun]
    cases rest with
    | nil => exact List.append_nil run
    | cons c rest =>
      have hc : ¬ c.isDigit = true := by rw [hrest c rfl]; exact Bool.false_ne_true
      rw [List.takeWhile_cons_of_neg hc, List.append_nil]
  have hkept : ∀ c ∈ run.take 9, c.isDigit = true := fun c hc => hrun c (List.mem_of_mem_take hc)
  have hzeros : (run ++ List.replicate 9 '0').take 9 =
      run.take 9 ++ List.replicate (9 - run.length) '0' := by
    rw [List.take_append, List.take_replicate, Nat.min_eq_left (Nat.sub_le ..)]
  have hlength : 9 - (run.take 9).length = 9 - run.length := by
    rw [List.length_take]
    omega
  have hempty : (run ++ rest).isEmpty = false :=
    List.isEmpty_eq_false_iff.2 (List.append_ne_nil_of_left_ne_nil hne rest)
  simp only [fraction, htake, hempty, List.isEmpty_eq_false_iff.2 hne, Bool.false_eq_true, if_false,
    Text.digitsValue_of_isDigit hkept, Option.getD_some, hzeros, Nat.ofDigitChars_append,
    Nat.ofDigitChars_replicate_zero, hlength, List.drop_left]
  rw [Nat.mul_comm]
  rfl

theorem head?_zone (z : Zone) (rest : List Char) :
    ∀ c ∈ (z.chars ++ rest).head?, c.isDigit = false ∧ c ≠ '.' := by
  intro c hc
  cases z with
  | universal small =>
    obtain rfl := Option.some.inj hc
    cases small <;> decide
  | offset sign hours minutes =>
    obtain rfl := Option.some.inj hc
    cases sign <;> decide

theorem timeOfDay_chars (t : Timestamp) (rest : List Char)
    (hrest : ∀ c ∈ rest.head?, c.isDigit = false ∧ c ≠ '.') :
    timeOfDay (t.timeChars ++ rest) =
      .ok (t.hour * 3600 + t.minute * 60 + min t.second.val 59,
        if t.second = 60 then t.nanos + 1000000000 else t.nanos, rest) := by
  have hfraction : ∀ next : Nat × List Char → Except Fault (Nat × Nat × List Char),
      (if (t.fractionChars ++ rest).head? = some '.' then
        fraction (t.fractionChars ++ rest).tail >>= next
      else pure (0, t.fractionChars ++ rest) >>= next) = next (t.nanos, rest) := by
    intro next
    rw [Timestamp.fractionChars, Timestamp.nanos]
    by_cases hnone : t.fraction = []
    · have hdot : ¬ rest.head? = some '.' := fun hdot => (hrest '.' hdot).2 rfl
      rw [if_pos hnone, List.nil_append, if_neg hdot, hnone]
      rfl
    · rw [if_neg hnone, if_pos (by rfl)]
      show fraction (t.fraction ++ rest) >>= next = _
      rw [fraction_digits hnone t.isDigit fun c hc => (hrest c hc).1, ok_bind]
  have hhour := t.hour.isLt
  have hminute := t.minute.isLt
  have hsecond := t.second.isLt
  have hcolon := oneOf_cons (List.mem_singleton_self ':')
  have hbounds : ¬ (24 ≤ t.hour.val ∨ 60 ≤ t.minute.val ∨ 61 ≤ t.second.val) := by omega
  have hmin : (if t.second.val = 60 then 59 else t.second.val) = min t.second.val 59 := by
    split_ifs <;> omega
  rw [timeOfDay, Timestamp.timeChars]
  simp only [List.append_assoc, List.cons_append,
    digits_padded (n := 2) (k := t.hour) (by decide) (by omega),
    digits_padded (n := 2) (k := t.minute) (by decide) (by omega),
    digits_padded (n := 2) (k := t.second) (by decide) (by omega), ok_bind, hcolon, hfraction,
    hbounds, if_false, hmin, Fin.ext_iff]
  rfl

theorem offset_chars (z : Zone) (rest : List Char) :
    offset (z.chars ++ rest) = .ok (z.ahead, rest) := by
  cases z with
  | universal small => cases small <;> rfl
  | offset sign hours minutes =>
    have hhours := hours.isLt
    have hminutes := minutes.isLt
    have hbound : ¬ 60 ≤ minutes.val := by omega
    have hsign : ¬ (sign.char = 'Z' ∨ sign.char = 'z') ∧
        (sign.char = '+' ∨ sign.char = '-' ∨ sign.char = Char.ofNat 0x2212) := by
      cases sign <;> decide
    rw [Zone.chars, List.cons_append, offset.eq_def]
    simp only [List.append_assoc, List.cons_append, twoDigits_padded (k := hours) (by omega),
      twoDigits_padded (k := minutes) (by omega), ok_bind,
      oneOf_cons (List.mem_singleton_self ':'), hbound, hsign, if_true, if_false]
    cases sign <;> rfl

theorem not_exceeds_ahead (z : Zone) :
    ¬ (z.ahead < -greatestOffset ∨ greatestOffset < z.ahead) := by
  cases z with
  | universal small => exact (by decide : ¬ ((0 : Int) < -greatestOffset ∨ greatestOffset < 0))
  | offset sign hours minutes =>
    have hhours := hours.isLt
    have hminutes := minutes.isLt
    cases sign <;> simp only [Zone.ahead, greatestOffset] <;> omega

theorem le_length_chars (t : Timestamp) : 19 ≤ t.chars.length := by
  have hyear : (Text.padded 4 t.year).length = 4 := Text.length_padded (by decide) t.year.isLt
  have htwo : ∀ k, k < 100 → (Text.padded 2 k).length = 2 := fun _ hk =>
    Text.length_padded (by decide) hk
  have hhour := htwo t.hour (by omega)
  have hminute := htwo t.minute (by omega)
  have hsecond := htwo t.second (by omega)
  simp only [Timestamp.chars, Timestamp.dateChars, Timestamp.timeChars, List.length_append,
    List.length_cons, hyear, htwo t.month t.month_lt, htwo t.day t.day_lt, hhour, hminute, hsecond]
  omega

/-- A stamp is read as the instant that it denotes. -/
theorem parseChars_chars (t : Timestamp) : parseChars t.chars = .ok t.instant := by
  have hlength := le_length_chars t
  have hsize := length_le_utf8ByteSize t.chars
  have hseparator : t.separator.char ∈ ['T', 't', ' '] := by cases t.separator <;> decide
  have htime := timeOfDay_chars t t.zone.chars (by simpa using head?_zone t.zone [])
  have hzone := offset_chars t.zone []
  rw [List.append_nil] at hzone
  rw [parseChars, if_neg (by omega), Timestamp.chars]
  simp only [date_chars, ok_bind, oneOf_cons hseparator, htime, hzone,
    if_neg (not_exceeds_ahead t.zone)]
  rfl

/-! ### Stamps among other text -/

/-- The characters that occur in stamps. -/
def inStamp (c : Char) : Bool :=
  c.isDigit || c ∈ ['-', ':', '.', '+', 'T', 't', ' ', 'Z', 'z', Char.ofNat 0x2212]

theorem all_inStamp_padded (n k : Nat) : (Text.padded n k).all inStamp = true := by
  refine List.all_eq_true.2 fun c hc => ?_
  rw [inStamp, Text.isDigit_of_mem_padded hc, Bool.true_or]

theorem all_inStamp_zone (z : Zone) : z.chars.all inStamp = true := by
  cases z with
  | universal small => cases small <;> decide
  | offset sign hours minutes =>
    have hsign : inStamp sign.char = true := by cases sign <;> decide
    have hcolon : inStamp ':' = true := by decide
    simp only [Zone.chars, List.all_cons, List.all_append, all_inStamp_padded, hsign, hcolon,
      Bool.and_self]

theorem all_inStamp_fraction (t : Timestamp) : t.fractionChars.all inStamp = true := by
  rw [Timestamp.fractionChars]
  split
  · rfl
  · refine List.all_eq_true.2 (List.forall_mem_cons.2 ⟨by decide, fun c hc => ?_⟩)
    rw [inStamp, t.isDigit c hc, Bool.true_or]

theorem all_inStamp_chars (t : Timestamp) : t.chars.all inStamp = true := by
  have hhyphen : inStamp '-' = true := by decide
  have hcolon : inStamp ':' = true := by decide
  have hseparator : inStamp t.separator.char = true := by cases t.separator <;> decide
  simp only [Timestamp.chars, Timestamp.dateChars, Timestamp.timeChars, List.all_append,
    List.all_cons, all_inStamp_padded, all_inStamp_fraction, all_inStamp_zone, hhyphen, hcolon,
    hseparator, Bool.and_self]

theorem not_mem_chars (t : Timestamp) {c : Char} (h : inStamp c = false) : c ∉ t.chars := by
  intro hc
  rw [List.all_eq_true.1 (all_inStamp_chars t) c hc] at h
  exact absurd h nofun

theorem getLast?_zone (z : Zone) : ∀ c ∈ z.chars.getLast?, Text.isBlank c = false := by
  intro c hc
  cases z with
  | universal small =>
    obtain rfl := Option.some.inj hc
    cases small <;> decide
  | offset sign hours minutes =>
    have hminutes : Text.padded 2 minutes ≠ [] := by
      rw [← List.length_pos_iff, Text.length_padded (by decide) (by omega)]
      decide
    rw [Zone.chars, List.append_cons, ← List.cons_append,
      List.getLast?_append_of_ne_nil _ hminutes] at hc
    exact Text.isBlank_of_isDigit (Text.isDigit_of_mem_padded (List.mem_of_getLast? hc))

/-- There are no blanks around a stamp. -/
theorem trim_chars (t : Timestamp) : Text.trim t.chars = t.chars := by
  refine Text.trim_eq_self ?_ ?_
  · have hyear : Text.padded 4 t.year ≠ [] := by
      rw [← List.length_pos_iff, Text.length_padded (by decide) (by omega)]
      decide
    obtain ⟨d, ds, hd⟩ := List.exists_cons_of_ne_nil hyear
    intro c hc
    rw [Timestamp.chars, Timestamp.dateChars, hd] at hc
    obtain rfl := Option.some.inj hc
    exact Text.isBlank_of_isDigit (Text.isDigit_of_mem_padded (hd ▸ List.mem_cons_self))
  · have hzone : t.zone.chars ≠ [] := by cases t.zone <;> exact List.cons_ne_nil _ _
    have hchars : t.chars.getLast? = t.zone.chars.getLast? := by
      rw [Timestamp.chars, List.append_cons, ← List.append_assoc,
        List.getLast?_append_of_ne_nil _ hzone]
    rw [hchars]
    exact getLast?_zone t.zone

end Mailroom.Time.Rfc3339
