/-
The form of stamps, and what a sign does to their order.

A stamp of a year from 0 to 9999 has 24 characters, digits and separators in their places. Any
other stamp begins with the sign of its year and is longer. A sign sorts before every digit. For a
year before 0 that is as it should be; a stamp of a year after 9999 sorts before all others.

* `InStampForm`, `inStampForm_stamp_iff`, `length_stamp_iff` — which stamps have the form;
* `year_nonneg_iff`, `year_le_iff` — the instants of which these years consist;
* `stamp_lt_iff_of_near` — the order of stamps of these years and the years next to them;
* `stamp_lt_cutoff_iff` — such a stamp beside a cutoff, which may lie long before.
-/
import Mailroom.Proofs.Time.StampComparison
import Mathlib.Data.List.Forall2

namespace Mailroom

/-! ### The form -/

/-- How a stamp looks. Letters stand for digits, but for `T` and `Z`. -/
def stampForm : List Char := "YYYY-MM-DDTHH:MM:SS.mmmZ".toList

/-- Whether a character may stand in a place of the form. -/
def fitsPlace (place c : Char) : Prop :=
  if place ∈ ['Y', 'M', 'D', 'H', 'S', 'm'] then c.isDigit = true else c = place

/-- Whether a text has the form of a stamp. -/
def InStampForm (s : String) : Prop := List.Forall₂ fitsPlace stampForm s.toList

theorem InStampForm.length_eq {s : String} (h : InStampForm s) : s.length = 24 := by
  rw [← String.length_toList]
  exact (List.Forall₂.length_eq h).symm

/-- The places of digits that a letter stands for, and a block of digits in front of the rest. -/
theorem fits_block {w n : Nat} {place : Char} {fs cs : List Char}
    (hplace : place ∈ ['Y', 'M', 'D', 'H', 'S', 'm']) (hw : 0 < w) (hn : n < 10 ^ w)
    (hrest : List.Forall₂ fitsPlace fs cs) :
    List.Forall₂ fitsPlace (List.replicate w place ++ fs) (Text.padded w n ++ cs) := by
  refine List.rel_append (List.forall₂_iff_get.2 ⟨?_, fun i hi hi' => ?_⟩) hrest
  · rw [List.length_replicate, Text.length_padded hw hn]
  · rw [fitsPlace, List.get_eq_getElem, List.getElem_replicate, if_pos hplace]
    exact Text.isDigit_of_mem_padded (List.getElem_mem hi')

/-- A mark between two blocks. -/
theorem fits_mark {mark : Char} {fs cs : List Char}
    (hmark : mark ∉ ['Y', 'M', 'D', 'H', 'S', 'm']) (hrest : List.Forall₂ fitsPlace fs cs) :
    List.Forall₂ fitsPlace (mark :: fs) (mark :: cs) :=
  .cons (by rw [fitsPlace, if_neg hmark]) hrest

/-- A number that fills its block has no zero in front. -/
theorem Text.exists_padded_eq_cons {w n : Nat} (h : 10 ^ w ≤ n) :
    ∃ c cs, padded w n = c :: cs ∧ '0' < c := by
  -- the first digit of a number is that of its quotient by 10, down to a single digit
  have hdigits : ∀ n, 0 < n → ∃ c cs, Nat.toDigits 10 n = c :: cs ∧ '0' < c := by
    intro n
    induction n using Nat.strongRecOn with
    | ind n ih =>
      intro hn
      rcases Nat.lt_or_ge n 10 with hlt | hge
      · exact ⟨_, [], Nat.toDigits_of_lt_base hlt, digitChar_lt_digitChar hlt hn⟩
      · obtain ⟨c, cs, hcs, hc⟩ := ih (n / 10) (by omega) (by omega)
        exact ⟨c, _, by rw [Nat.toDigits_of_base_le (by decide) hge, hcs, List.cons_append], hc⟩
  obtain ⟨c, cs, hcs, hc⟩ := hdigits n (Nat.lt_of_lt_of_le (Nat.pow_pos (by decide)) h)
  refine ⟨c, cs, ?_, hc⟩
  have hwidth : w ≤ (Nat.toDigits 10 n).length := by
    rcases Nat.eq_zero_or_pos w with rfl | hw
    · exact Nat.zero_le _
    · by_contra hshort
      have hlt := (Nat.length_toDigits_le_iff (b := 10) (n := n) (by decide) hw).1 (by omega)
      omega
  rw [padded, Nat.sub_eq_zero_of_le hwidth, List.replicate_zero, List.nil_append, hcs]

namespace Time.Instant

variable {t a b : Instant}

theorem inStampForm_stamp (ht : t.IsUniversal) (hyear : t.HasShortYear) : InStampForm t.stamp := by
  have hmonth : t.date.month ≤ 12 := (month_ofDayNumber _).2
  have hday : t.date.day ≤ 31 := (day_ofDayNumber _).2
  have hsecond := shownSecond_lt ht
  have hclock := t.secondOfDay_lt
  obtain ⟨hlow, hhigh⟩ := hyear
  have hblocks : stampForm = List.replicate 4 'Y' ++ '-' :: (List.replicate 2 'M' ++ '-' ::
      (List.replicate 2 'D' ++ 'T' :: (List.replicate 2 'H' ++ ':' :: (List.replicate 2 'M' ++
        ':' :: (List.replicate 2 'S' ++ '.' :: (List.replicate 3 'm' ++ ['Z'])))))) := by decide
  rw [InStampForm, hblocks, stamp, String.toList_ofList, stampChars, yearText_of_short ⟨hlow, hhigh⟩]
  simp only [List.append_assoc, List.cons_append]
  refine fits_block (by decide) (by decide) (by omega) (fits_mark (by decide) ?_)
  refine fits_block (by decide) (by decide) (by omega) (fits_mark (by decide) ?_)
  refine fits_block (by decide) (by decide) (by omega) (fits_mark (by decide) ?_)
  refine fits_block (by decide) (by decide) (by omega) (fits_mark (by decide) ?_)
  refine fits_block (by decide) (by decide) (by omega) (fits_mark (by decide) ?_)
  refine fits_block (by decide) (by decide) hsecond (fits_mark (by decide) ?_)
  exact fits_block (by decide) (by decide) (by omega) (fits_mark (by decide) .nil)

/-- With a sign a stamp is longer. -/
theorem length_stamp_of_signed (h : ¬ t.HasShortYear) : 24 < t.stamp.length := by
  have hwidth : ∀ w n, w ≤ (Text.padded w n).length := by
    intro w n
    rw [Text.padded, List.length_append, List.length_replicate]
    omega
  have hyear : ¬ (0 ≤ t.date.year ∧ t.date.year ≤ 9999) := h
  have hy := hwidth 4 t.date.year.natAbs
  have hm := hwidth 2 t.date.month
  have hd := hwidth 2 t.date.day
  have hh := hwidth 2 (t.secondOfDay / 3600)
  have hmin := hwidth 2 (t.secondOfDay / 60 % 60)
  have hs := hwidth 2 (t.secondOfDay % 60 + t.nanos / 1000000000)
  have hms := hwidth 3 (t.nanos % 1000000000 / 1000000)
  rw [stamp, String.length_ofList, stampChars, yearText, if_neg hyear]
  simp only [List.length_append, List.length_cons, List.length_nil]
  omega

theorem length_stamp_iff (ht : t.IsUniversal) : t.stamp.length = 24 ↔ t.HasShortYear := by
  refine ⟨fun hlength => ?_, length_stamp ht⟩
  by_contra hsigned
  exact absurd hlength (Nat.ne_of_gt (length_stamp_of_signed hsigned))

theorem inStampForm_stamp_iff (ht : t.IsUniversal) : InStampForm t.stamp ↔ t.HasShortYear :=
  ⟨fun hform => (length_stamp_iff ht).1 hform.length_eq, inStampForm_stamp ht⟩

/-! ### The years from 0 to 9999 -/

theorem year_nonneg_iff : 0 ≤ t.date.year ↔ -62167219200 ≤ t.seconds := by
  refine ⟨seconds_ge_of_year_nonneg, fun h => ?_⟩
  have hyear := year_le_of_seconds_le (a := ⟨-62167219200, 0⟩) (b := t) h
  have hfirst : (⟨-62167219200, 0⟩ : Instant).date.year = 0 := by decide
  omega

theorem year_le_iff : t.date.year ≤ 9999 ↔ t.seconds < 253402300800 := by
  refine ⟨seconds_lt_of_year_le, fun h => ?_⟩
  have hyear := year_le_of_seconds_le (a := t) (b := ⟨253402300799, 0⟩)
    (show t.seconds ≤ 253402300799 by omega)
  have hlast : (⟨253402300799, 0⟩ : Instant).date.year = 9999 := by decide
  omega

/-! ### Years on both sides -/

theorem before_of_year_lt (h : a.date.year < b.date.year) : a.toMillis.Before b.toMillis := by
  refine .inl (show a.seconds < b.seconds from ?_)
  by_contra hlate
  have hyear := year_le_of_seconds_le (a := b) (b := a) (by omega)
  omega

/-- Whether the year is one from 0 to 9999, or next to them. -/
def HasNearYear (t : Instant) : Prop := -1 ≤ t.date.year ∧ t.date.year ≤ 10000

theorem stamp_lt_iff_of_not_long (ha : a.IsUniversal) (hb : b.IsUniversal) (hya : a.HasNearYear)
    (hyb : b.HasNearYear) (hla : a.date.year ≤ 9999) (hlb : b.date.year ≤ 9999) :
    a.stamp < b.stamp ↔ a.toMillis.Before b.toMillis := by
  obtain ⟨hna, -⟩ := hya
  obtain ⟨hnb, -⟩ := hyb
  rcases Int.lt_or_le a.date.year 0 with hneg | hpos
  · rcases Int.lt_or_le b.date.year 0 with hneg' | hpos'
    · exact stamp_lt_iff_of_year_eq ha hb (by omega)
    · exact iff_of_true (stamp_lt_of_year_neg hneg ⟨hpos', hlb⟩) (before_of_year_lt (by omega))
  · exact stamp_lt_iff_of_year_le ha hb ⟨hpos, hla⟩ hlb

/-- A stamp of a year after 9999 sorts before those of the years up to 9999. Apart from that stamps
sort as instants do. -/
theorem stamp_lt_iff_of_near (ha : a.IsUniversal) (hb : b.IsUniversal) (hya : a.HasNearYear)
    (hyb : b.HasNearYear) : a.stamp < b.stamp ↔ 9999 < a.date.year ∧ b.date.year ≤ 9999 ∨
      (9999 < a.date.year ↔ 9999 < b.date.year) ∧ a.toMillis.Before b.toMillis := by
  have hfirst : ∀ {t u : Instant}, 9999 < t.date.year → u.date.year ≤ 9999 → t.stamp < u.stamp := by
    intro t u ht hu
    rcases Int.lt_or_le u.date.year 0 with hneg | hpos
    · exact stamp_lt_of_year_long_neg ht hneg
    · exact stamp_lt_of_signed (fun hshort => absurd hshort.2 (by omega)) ⟨hpos, hu⟩
  rcases Int.lt_or_le 9999 a.date.year with hla | hla <;>
    rcases Int.lt_or_le 9999 b.date.year with hlb | hlb
  · have hyear : a.date.year = b.date.year := by
      have := hya.2
      have := hyb.2
      omega
    rw [stamp_lt_iff_of_year_eq ha hb hyear]
    simp only [hla, hlb, true_and, Int.not_le.2 hlb, false_or]
  · exact iff_of_true (hfirst hla hlb) (.inl ⟨hla, hlb⟩)
  · refine iff_of_false (String.lt_asymm (hfirst hlb hla)) ?_
    omega
  · rw [stamp_lt_iff_of_not_long ha hb hya hyb hla hlb]
    simp only [Int.not_lt.2 hla, Int.not_lt.2 hlb, false_and, true_and, false_or]

/-! ### Cutoffs long ago -/

theorem stampChars_of_year_neg (h : t.date.year < 0) :
    t.stampChars = '-' :: (Text.padded 4 t.date.year.natAbs ++ (t.monthChars ++ t.secondChars)) := by
  have hyear : ¬ (0 ≤ t.date.year ∧ t.date.year ≤ 9999) := by omega
  rw [stampChars_eq, minuteChars_eq, yearText, if_neg hyear, if_pos h, List.append_assoc,
    List.cons_append]

/-- Among the years before 0 the latest sorts first. -/
theorem stamp_lt_of_year_lt_neg (ha : a.date.year = -1) (hb : b.date.year < -1) :
    a.stamp < b.stamp := by
  rw [String.lt_iff, stamp, stamp, String.toList_ofList, String.toList_ofList,
    stampChars_of_year_neg (by omega), stampChars_of_year_neg (by omega), List.cons_lt_cons_iff]
  have hone : a.date.year.natAbs = 1 := by omega
  refine .inr ⟨rfl, ?_⟩
  rw [hone]
  rcases Nat.lt_or_ge b.date.year.natAbs (10 ^ 4) with hshort | hlong
  · exact (Text.padded_append_lt_iff (by decide) (by decide) hshort).2 (.inl (by omega))
  · obtain ⟨c, cs, hcs, hc⟩ := Text.exists_padded_eq_cons (w := 4) hlong
    rw [hcs]
    exact List.cons_lt_cons_iff.2 (.inl hc)

/-- What a cutoff picks out, of the stamps of these years: what comes before it, every year after
9999, and the year before 0 if the cutoff lies in a still earlier one. -/
theorem stamp_lt_cutoff_iff (ha : a.IsUniversal) (hb : b.IsUniversal) (hya : a.HasNearYear)
    (hlb : b.date.year ≤ 9999) : a.stamp < b.stamp ↔ a.toMillis.Before b.toMillis ∨
      9999 < a.date.year ∨ a.date.year < 0 ∧ b.date.year < -1 := by
  rcases Int.lt_or_le b.date.year (-1) with hold | hnear
  · rcases Int.lt_or_le 9999 a.date.year with hla | hla
    · exact iff_of_true (stamp_lt_of_year_long_neg hla (by omega)) (.inr (.inl hla))
    · rcases Int.lt_or_le a.date.year 0 with hneg | hpos
      · have hlast : a.date.year = -1 := by
          have := hya.1
          omega
        exact iff_of_true (stamp_lt_of_year_lt_neg hlast hold) (.inr (.inr ⟨hneg, hold⟩))
      · rw [stamp_lt_iff_of_year_le ha hb ⟨hpos, hla⟩ hlb]
        simp only [Int.not_lt.2 hla, Int.not_lt.2 hpos, false_and, or_false]
  · rw [stamp_lt_iff_of_near ha hb hya ⟨hnear, by omega⟩]
    rcases Int.lt_or_le 9999 a.date.year with hla | hla
    · exact iff_of_true (.inl ⟨hla, hlb⟩) (.inr (.inl hla))
    · simp only [Int.not_lt.2 hla, Int.not_lt.2 hlb, Int.not_lt.2 hnear, false_and, true_and,
        false_or, and_false, or_false]

end Time.Instant

end Mailroom
