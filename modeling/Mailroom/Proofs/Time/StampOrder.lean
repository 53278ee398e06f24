/-
Stamps sort as texts the way instants sort in time.

A stamp of a year from 0 to 9999 is made of blocks of digits of fixed width, and texts
made of such blocks compare block by block, as the numbers do:

* `padded_append_lt_iff` — the law for one block;
* `minuteChars_lt` — the front of a stamp, up to the minute, sorts by the minute;
* `stamp_lt_of_minute_lt` — an earlier minute has an earlier stamp;
* `stamp_lt_of_signed` — a sign sorts before every digit;
* `not_stamp_lt_cutoff` — no moment of such a year stands before the cutoff that lies
  some days before it, also where that cutoff lies before the year 0.

The seconds of a stamp are left out on purpose: in a leap second they depend on the
minute, and no cutoff needs them.
-/
import Mathlib.Algebra.Group.Nat.Defs
import Mailroom.Mailbox.Pruning
import Mailroom.Proofs.Time.CalendarOrder

namespace Mailroom

/-! ### Texts that begin with blocks of one width -/

namespace Text

theorem append_lt_append_iff {a b x y : List Char} (h : a.length = b.length) :
    a ++ x < b ++ y ↔ a < b ∨ a = b ∧ x < y := by
  induction a generalizing b with
  | nil =>
    obtain rfl : b = [] := List.eq_nil_of_length_eq_zero h.symm
    simp
  | cons c a ih =>
    cases b with
    | nil => simp at h
    | cons d b =>
      have h' : a.length = b.length := by simpa using h
      simp only [List.cons_append, List.cons_lt_cons_iff, ih h', List.cons.injEq]
      tauto

theorem digitChar_lt_digitChar {m n : Nat} (hn : n < 10) (h : m < n) :
    Nat.digitChar m < Nat.digitChar n := by
  have hm : m < 10 := by omega
  rw [Char.lt_def, UInt32.lt_iff_toNat_lt]
  change (Nat.digitChar m).toNat < (Nat.digitChar n).toNat
  rw [Nat.toNat_digitChar_of_lt_ten hm, Nat.toNat_digitChar_of_lt_ten hn]
  omega

theorem padded_one {n : Nat} (h : n < 10) : padded 1 n = [Nat.digitChar n] := by
  simp [padded, Nat.toDigits_of_lt_base h]

/-- The last digit of a block, and the block of the others. -/
theorem padded_succ {w n : Nat} (hw : 0 < w) :
    padded (w + 1) n = padded w (n / 10) ++ [Nat.digitChar (n % 10)] := by
  rcases Nat.lt_or_ge n 10 with h | h
  · obtain ⟨w, rfl⟩ : ∃ v, w = v + 1 := ⟨w - 1, by omega⟩
    rw [padded, padded, Nat.toDigits_of_lt_base h, Nat.div_eq_of_lt h, Nat.mod_eq_of_lt h,
      Nat.toDigits_zero]
    simp [List.replicate_succ', List.append_assoc]
  · rw [padded, padded, Nat.toDigits_of_base_le (by omega) h]
    simp [List.append_assoc]

theorem length_padded {w n : Nat} (hw : 0 < w) (hn : n < 10 ^ w) : (padded w n).length = w := by
  have h := (Nat.length_toDigits_le_iff (b := 10) (n := n) (by omega) hw).2 hn
  simp only [padded, List.length_append, List.length_replicate]
  omega

theorem isDigit_of_mem_padded {w n : Nat} {c : Char} (h : c ∈ padded w n) : c.isDigit := by
  rcases List.mem_append.1 h with h | h
  · rw [List.eq_of_mem_replicate h]
    rfl
  · exact Nat.isDigit_of_mem_toDigits (by omega) (by omega) h

theorem padded_lt_padded {w m n : Nat} (hw : 0 < w) (hn : n < 10 ^ w) (h : m < n) :
    padded w m < padded w n := by
  induction w generalizing m n with
  | zero => omega
  | succ w ih =>
    rcases Nat.eq_zero_or_pos w with rfl | hw
    · rw [padded_one (by omega), padded_one (by omega)]
      exact List.cons_lt_cons_iff.2 (.inl (digitChar_lt_digitChar (by omega) h))
    -- the last digit decides only where all others agree
    have hpow : 10 ^ (w + 1) = 10 ^ w * 10 := Nat.pow_succ ..
    have hlen : (padded w (m / 10)).length = (padded w (n / 10)).length := by
      rw [length_padded hw (by omega), length_padded hw (by omega)]
    rw [padded_succ hw, padded_succ hw, append_lt_append_iff hlen]
    rcases Nat.lt_or_ge (m / 10) (n / 10) with hq | hq
    · exact .inl (ih hw (by omega) hq)
    · have he : m / 10 = n / 10 := by omega
      rw [he]
      exact .inr ⟨rfl, List.cons_lt_cons_iff.2 (.inl (digitChar_lt_digitChar (by omega) (by omega)))⟩

theorem padded_append_lt_iff {w m n : Nat} {x y : List Char} (hw : 0 < w) (hm : m < 10 ^ w)
    (hn : n < 10 ^ w) : padded w m ++ x < padded w n ++ y ↔ m < n ∨ m = n ∧ x < y := by
  have hlen : (padded w m).length = (padded w n).length := by
    rw [length_padded hw hm, length_padded hw hn]
  rw [append_lt_append_iff hlen]
  rcases Nat.lt_trichotomy m n with h | rfl | h
  · have := padded_lt_padded hw hn h
    simp [h, this]
  · simp only [List.lt_irrefl, Nat.lt_irrefl, true_and, false_or]
  · have hlt := padded_lt_padded hw hm h
    have hne : padded w m ≠ padded w n := fun he => List.lt_irrefl _ (he ▸ hlt)
    have hnot : ¬ padded w m < padded w n := List.lt_asymm hlt
    simp [hne, hnot, Nat.lt_asymm h, Nat.ne_of_gt h]

end Text

namespace Time

/-! ### Stamps up to the minute -/

/-- A later day has a later date, compared by year, month and day. -/
theorem date_lt {m n : Int} (h : m < n) :
    (Date.ofDayNumber m).year < (Date.ofDayNumber n).year ∨
      (Date.ofDayNumber m).year = (Date.ofDayNumber n).year ∧
        ((Date.ofDayNumber m).month < (Date.ofDayNumber n).month ∨
          (Date.ofDayNumber m).month = (Date.ofDayNumber n).month ∧
            (Date.ofDayNumber m).day < (Date.ofDayNumber n).day) := by
  have hlt := ofDayNumber_lt h
  have hm := month_ofDayNumber m
  have hn := month_ofDayNumber n
  unfold Date.monthIndex at hlt
  omega

namespace Instant

/-- Whether the year has four digits. -/
def HasShortYear (t : Instant) : Prop := 0 ≤ t.date.year ∧ t.date.year ≤ 9999

/-- The front of a stamp: date, hour and minute. -/
def minuteChars (t : Instant) : List Char :=
  yearText t.date.year ++ '-' :: (Text.padded 2 t.date.month ++ '-' :: (Text.padded 2 t.date.day ++
    'T' :: (Text.padded 2 (t.secondOfDay / 3600) ++ ':' :: Text.padded 2 (t.secondOfDay / 60 % 60))))

/-- What follows the year in the front of a stamp. -/
def monthChars (t : Instant) : List Char :=
  '-' :: (Text.padded 2 t.date.month ++ '-' :: (Text.padded 2 t.date.day ++
    'T' :: (Text.padded 2 (t.secondOfDay / 3600) ++ ':' :: Text.padded 2 (t.secondOfDay / 60 % 60))))

/-- The rest of a stamp: second and fraction. -/
def secondChars (t : Instant) : List Char :=
  ':' :: (Text.padded 2 (t.secondOfDay % 60 + t.nanos / 1000000000) ++
    '.' :: (Text.padded 3 (t.nanos % 1000000000 / 1000000) ++ ['Z']))

theorem stampChars_eq (t : Instant) : t.stampChars = t.minuteChars ++ t.secondChars := by
  simp [stampChars, minuteChars, secondChars, List.append_assoc]

theorem yearText_of_short {t : Instant} (h : t.HasShortYear) :
    yearText t.date.year = Text.padded 4 t.date.year.toNat := by
  obtain ⟨h0, h1⟩ := h
  rw [yearText, if_pos ⟨h0, h1⟩]

theorem secondOfDay_lt (t : Instant) : t.secondOfDay < 86400 := by
  unfold secondOfDay
  omega

theorem minuteChars_eq (t : Instant) : t.minuteChars = yearText t.date.year ++ t.monthChars := rfl

theorem length_monthChars (t : Instant) : t.monthChars.length = 12 := by
  have hm : t.date.month ≤ 12 := (month_ofDayNumber _).2
  have hd : t.date.day ≤ 31 := (day_ofDayNumber _).2
  have hs := t.secondOfDay_lt
  rw [monthChars]
  simp only [List.length_append, List.length_cons]
  rw [Text.length_padded (by omega) (by omega), Text.length_padded (by omega) (by omega),
    Text.length_padded (by omega) (by omega), Text.length_padded (by omega) (by omega)]

theorem length_minuteChars {t : Instant} (h : t.HasShortYear) : t.minuteChars.length = 16 := by
  obtain ⟨hy0, hy1⟩ := h
  rw [minuteChars_eq, List.length_append, length_monthChars, yearText_of_short ⟨hy0, hy1⟩,
    Text.length_padded (by omega) (by omega)]

/-- The date of an earlier instant is no later. -/
theorem year_le_of_seconds_le {a b : Instant} (h : a.seconds ≤ b.seconds) :
    a.date.year ≤ b.date.year := by
  rcases Int.lt_or_eq_of_le (show a.seconds / 86400 ≤ b.seconds / 86400 by omega) with hlt | he
  · have := date_lt hlt
    unfold date
    omega
  · exact Int.le_of_eq (congrArg (fun d => (Date.ofDayNumber d).year) he)

/-- Within a year, the parts of the date decide if the days differ, hour and minute if they do
not. -/
theorem monthChars_lt {a b : Instant} (hyear : a.date.year = b.date.year)
    (h : a.seconds / 60 < b.seconds / 60) : a.monthChars < b.monthChars := by
  have hma : a.date.month ≤ 12 := (month_ofDayNumber _).2
  have hmb : b.date.month ≤ 12 := (month_ofDayNumber _).2
  have hda : a.date.day ≤ 31 := (day_ofDayNumber _).2
  have hdb : b.date.day ≤ 31 := (day_ofDayNumber _).2
  have hsa := a.secondOfDay_lt
  have hsb := b.secondOfDay_lt
  -- block by block: month, day, hour and minute, with a separator before each
  rw [monthChars, monthChars, List.cons_lt_cons_iff,
    ← List.append_nil (Text.padded 2 (a.secondOfDay / 60 % 60)),
    ← List.append_nil (Text.padded 2 (b.secondOfDay / 60 % 60)),
    Text.padded_append_lt_iff (by omega) (by omega) (by omega), List.cons_lt_cons_iff,
    Text.padded_append_lt_iff (by omega) (by omega) (by omega), List.cons_lt_cons_iff,
    Text.padded_append_lt_iff (by omega) (by omega) (by omega), List.cons_lt_cons_iff,
    Text.padded_append_lt_iff (by omega) (by omega) (by omega)]
  simp only [Char.lt_irrefl, false_or, true_and]
  rcases Int.lt_trichotomy (a.seconds / 86400) (b.seconds / 86400) with hday | hday | hday
  · have hlt : a.date.year < b.date.year ∨ a.date.year = b.date.year ∧
        (a.date.month < b.date.month ∨ a.date.month = b.date.month ∧ a.date.day < b.date.day) :=
      date_lt hday
    omega
  · have hdate : a.date = b.date := congrArg Date.ofDayNumber hday
    have hclock : a.secondOfDay / 60 < b.secondOfDay / 60 := by
      unfold secondOfDay
      omega
    rw [hdate]
    omega
  · omega

/-- An earlier minute has an earlier stamp. -/
theorem minuteChars_lt {a b : Instant} (ha : a.HasShortYear) (hb : b.HasShortYear)
    (h : a.seconds / 60 < b.seconds / 60) : a.minuteChars < b.minuteChars := by
  obtain ⟨hya, hya'⟩ := ha
  obtain ⟨hyb, hyb'⟩ := hb
  have hyear : a.date.year ≤ b.date.year := year_le_of_seconds_le (by omega)
  rw [minuteChars_eq, minuteChars_eq, yearText_of_short ⟨hya, hya'⟩, yearText_of_short ⟨hyb, hyb'⟩,
    Text.padded_append_lt_iff (by omega) (by omega) (by omega)]
  rcases Int.lt_or_eq_of_le hyear with hlt | heq
  · exact .inl (by omega)
  · exact .inr ⟨congrArg Int.toNat heq, monthChars_lt heq h⟩

theorem stamp_lt_of_minute_lt {a b : Instant} (ha : a.HasShortYear) (hb : b.HasShortYear)
    (h : a.seconds / 60 < b.seconds / 60) : a.stamp < b.stamp := by
  have hlen : a.minuteChars.length = b.minuteChars.length := by
    rw [length_minuteChars ha, length_minuteChars hb]
  rw [String.lt_iff, stamp, stamp, String.toList_ofList, String.toList_ofList, stampChars_eq,
    stampChars_eq, Text.append_lt_append_iff hlen]
  exact .inl (minuteChars_lt ha hb h)

/-- The same within a year of any kind. -/
theorem stamp_lt_of_minute_lt_of_year_eq {a b : Instant} (hyear : a.date.year = b.date.year)
    (h : a.seconds / 60 < b.seconds / 60) : a.stamp < b.stamp := by
  have hlen : a.monthChars.length = b.monthChars.length := by
    rw [length_monthChars, length_monthChars]
  rw [String.lt_iff, stamp, stamp, String.toList_ofList, String.toList_ofList, stampChars_eq,
    stampChars_eq, minuteChars_eq, minuteChars_eq, hyear, List.append_assoc, List.append_assoc,
    Text.append_lt_append_iff rfl, Text.append_lt_append_iff hlen]
  exact .inr ⟨rfl, .inl (monthChars_lt hyear h)⟩

/-! ### Signs -/

theorem head?_stampChars (t : Instant) : t.stampChars.head? = (yearText t.date.year).head? := by
  have hyear : yearText t.date.year ≠ [] := by
    rw [yearText]
    split
    · exact fun hnil => absurd (congrArg List.length hnil) (by simp [Text.padded])
    · exact List.cons_ne_nil _ _
  obtain ⟨c, cs, hc⟩ := List.exists_cons_of_ne_nil hyear
  rw [stampChars_eq, minuteChars, hc]
  rfl

/-- A stamp of a year of four digits begins with a digit. -/
theorem head?_stampChars_of_short {t : Instant} (h : t.HasShortYear) :
    ∃ c, t.stampChars.head? = some c ∧ '0' ≤ c := by
  obtain ⟨c, rest, hc⟩ : ∃ c rest, Text.padded 4 t.date.year.toNat = c :: rest := by
    refine List.exists_cons_of_length_pos ?_
    obtain ⟨h0, h1⟩ := h
    rw [Text.length_padded (by omega) (by omega)]
    omega
  have hdigit : c.isDigit := Text.isDigit_of_mem_padded (hc ▸ List.mem_cons_self)
  simp only [Char.isDigit, Bool.and_eq_true, decide_eq_true_eq] at hdigit
  exact ⟨c, by rw [head?_stampChars, yearText_of_short h, hc]; rfl, hdigit.1⟩

/-- Any other stamp begins with the sign of its year. -/
theorem head?_stampChars_of_signed {t : Instant} (h : ¬ t.HasShortYear) :
    t.stampChars.head? = some (if t.date.year < 0 then '-' else '+') := by
  have hyear : ¬ (0 ≤ t.date.year ∧ t.date.year ≤ 9999) := h
  rw [head?_stampChars, yearText, if_neg hyear]
  rfl

theorem stamp_lt_of_head?_lt {a b : Instant} {c d : Char} (ha : a.stampChars.head? = some c)
    (hb : b.stampChars.head? = some d) (h : c < d) : a.stamp < b.stamp := by
  obtain ⟨cs, ha⟩ := List.head?_eq_some_iff.1 ha
  obtain ⟨ds, hb⟩ := List.head?_eq_some_iff.1 hb
  rw [String.lt_iff, stamp, stamp, String.toList_ofList, String.toList_ofList, ha, hb]
  exact List.cons_lt_cons_iff.2 (.inl h)

/-- A sign sorts before every digit. -/
theorem stamp_lt_of_signed {a b : Instant} (ha : ¬ a.HasShortYear) (hb : b.HasShortYear) :
    a.stamp < b.stamp := by
  obtain ⟨c, hc, hdigit⟩ := head?_stampChars_of_short hb
  refine stamp_lt_of_head?_lt (head?_stampChars_of_signed ha) hc ?_
  have hsign : (if a.date.year < 0 then '-' else '+') < '0' := by split <;> decide
  exact UInt32.lt_of_lt_of_le hsign hdigit

theorem stamp_lt_of_year_neg {a b : Instant} (ha : a.date.year < 0) (hb : b.HasShortYear) :
    a.stamp < b.stamp :=
  stamp_lt_of_signed (fun hshort => absurd hshort.1 (by omega)) hb

/-- A plus sign sorts before a minus sign. -/
theorem stamp_lt_of_year_long_neg {a b : Instant} (ha : 9999 < a.date.year)
    (hb : b.date.year < 0) : a.stamp < b.stamp := by
  have hsa := head?_stampChars_of_signed (t := a) fun hshort => absurd hshort.2 (by omega)
  have hsb := head?_stampChars_of_signed (t := b) fun hshort => absurd hshort.1 (by omega)
  rw [if_neg (by omega)] at hsa
  rw [if_pos hb] at hsb
  exact stamp_lt_of_head?_lt hsa hsb (by decide)

/-! ### Cutoffs -/

/-- Going back by a day or more leads at least a day back, from the second after a leap
second at the most. -/
theorem seconds_of_minusDays? {t e : Instant} {days : Nat} (h : t.minusDays? days = some e) :
    days = 0 ∧ e = t ∨ 0 < days ∧ e.seconds ≤ t.seconds + 1 - days * 86400 := by
  have key : ∀ start : Instant, start.seconds ≤ t.seconds + 1 →
      (if (⟨start.seconds - days * 86400, start.nanos⟩ : Instant).inRange then
        some (⟨start.seconds - days * 86400, start.nanos⟩ : Instant) else none) = some e →
      e.seconds ≤ t.seconds + 1 - days * 86400 := by
    intro start hstart h
    split at h
    · obtain rfl := Option.some.inj h
      show start.seconds - days * 86400 ≤ t.seconds + 1 - days * 86400
      omega
    · exact absurd h (by simp)
  rw [minusDays?] at h
  split at h
  · exact .inl ⟨‹_›, (Option.some.inj h).symm⟩
  · refine .inr ⟨by omega, ?_⟩
    split at h
    · exact key _ (Int.le_refl _) h
    · exact key t (by omega) h

end Instant
end Time

open Time

/-- No moment of a year from 0 to 9999 stands before the cutoff that lies some days before it. -/
theorem not_stamp_lt_cutoff {days : Nat} {now : Instant} {c : String} (hnow : now.HasShortYear)
    (h : cutoff days now = .ok c) : ¬ now.stamp < c := by
  cases he : now.minusDays? days with
  | none => simp [cutoff, he] at h
  | some e =>
    obtain rfl : e.stamp = c := by simpa [cutoff, he] using h
    rcases Instant.seconds_of_minusDays? he with ⟨-, rfl⟩ | ⟨hdays, hsec⟩
    · exact String.lt_irrefl _
    · have hyear : e.date.year ≤ now.date.year := Instant.year_le_of_seconds_le (by omega)
      -- the cutoff may lie before the year 0, where stamps no longer have four digits
      have hlt : e.stamp < now.stamp := by
        rcases Int.lt_or_le e.date.year 0 with hneg | hpos
        · exact Instant.stamp_lt_of_year_neg hneg hnow
        · have hmax : e.date.year ≤ 9999 := Int.le_trans hyear hnow.2
          exact Instant.stamp_lt_of_minute_lt ⟨hpos, hmax⟩ hnow (by omega)
      exact String.lt_asymm hlt

end Mailroom
