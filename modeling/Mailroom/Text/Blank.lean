/-
Blank characters and trimming.

A character is blank when it has the Unicode property `White_Space`: twenty-five
characters, among them the no-break space and the ideographic space, but not the
zero-width ones.

* `trimStart`, `trimEnd`, `trim` — a text without the blanks at its ends;
* `trim_trim` — trimming twice is trimming once.
-/
namespace Mailroom.Text

/-- The characters with the Unicode property `White_Space`. -/
def isBlank (c : Char) : Bool :=
  (9 ≤ c.toNat && c.toNat ≤ 13) || c.toNat == 0x20 || c.toNat == 0x85 || c.toNat == 0xA0 ||
    c.toNat == 0x1680 || (0x2000 ≤ c.toNat && c.toNat ≤ 0x200A) || c.toNat == 0x2028 ||
    c.toNat == 0x2029 || c.toNat == 0x202F || c.toNat == 0x205F || c.toNat == 0x3000

/-- The text without the blanks it begins with. -/
def trimStart (cs : List Char) : List Char := cs.dropWhile isBlank

/-- The text without the blanks it ends with. -/
def trimEnd (cs : List Char) : List Char := (cs.reverse.dropWhile isBlank).reverse

/-- The text without the blanks at either end. -/
def trim (cs : List Char) : List Char := trimEnd (trimStart cs)

/-- `trim` on strings. -/
def trimmed (s : String) : String := String.ofList (trim s.toList)

/-- The trimmed text, if anything is left of it. -/
def nonBlank? (s : Option String) : Option String :=
  (s.map trimmed).filter (!·.isEmpty)

/-- The words of a text: its maximal runs of characters that are not blank. -/
def words (cs : List Char) : List (List Char) :=
  (cs.splitOnP isBlank).filter (!·.isEmpty)

/-! ### Trimming twice -/

theorem dropWhile_dropWhile (p : Char → Bool) (cs : List Char) :
    (cs.dropWhile p).dropWhile p = cs.dropWhile p := by
  induction cs with
  | nil => rfl
  | cons c cs ih => by_cases h : p c <;> simp [List.dropWhile, h, ih]

theorem trimEnd_trimEnd (cs : List Char) : trimEnd (trimEnd cs) = trimEnd cs := by
  simp [trimEnd, dropWhile_dropWhile]

theorem exists_trimEnd_append (cs : List Char) : ∃ after, trimEnd cs ++ after = cs := by
  obtain ⟨before, h⟩ := List.dropWhile_suffix (l := cs.reverse) isBlank
  exact ⟨before.reverse, by rw [trimEnd, ← List.reverse_append, h, List.reverse_reverse]⟩

theorem head?_trimStart {cs : List Char} {c : Char} (h : (trimStart cs).head? = some c) :
    isBlank c = false := by
  induction cs with
  | nil => simp [trimStart] at h
  | cons d cs ih =>
    by_cases hd : isBlank d
    · exact ih (by simpa [trimStart, List.dropWhile, hd] using h)
    · obtain rfl : d = c := by simpa [trimStart, List.dropWhile, hd] using h
      simpa using hd

theorem trim_trim (cs : List Char) : trim (trim cs) = trim cs := by
  have key : trimStart (trimEnd (trimStart cs)) = trimEnd (trimStart cs) := by
    obtain ⟨after, h⟩ := exists_trimEnd_append (trimStart cs)
    cases ht : trimEnd (trimStart cs) with
    | nil => rfl
    | cons c rest =>
      have hc : isBlank c = false := head?_trimStart (by rw [← h, ht]; rfl)
      simp [trimStart, List.dropWhile, hc]
  rw [trim, trim, key, trimEnd_trimEnd]

end Mailroom.Text
