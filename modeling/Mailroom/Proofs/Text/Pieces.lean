/-
What stands in the pieces and in the lines of a text.

* `length_splitOn` — there is one piece more than there are separators;
* `mem_intercalate` — what is in a joined text besides separators is in one of its parts;
* `not_mem_of_length_splitOn` — joined parts that come apart as they were hold no separator;
* `not_mem_of_mem_splitOn` — no piece holds a separator;
* `feed_not_mem_of_mem_lines` — and no line holds a line feed.
-/
import Mailroom.Text.Lines

namespace Mailroom.Text

/-! ### Pieces -/

theorem length_splitOn (sep : Char) (cs : List Char) :
    (cs.splitOn sep).length = cs.count sep + 1 := by
  induction cs with
  | nil => rfl
  | cons c cs ih =>
    rw [List.splitOn_cons_eq_if_modifyHead, List.count_cons]
    split
    · rw [List.length_cons, ih]
    · rw [List.length_modifyHead, ih, Nat.add_zero]

/-- Joining adds one separator between any two parts. -/
theorem count_intercalate {sep : Char} {parts : List (List Char)} (h : parts ≠ []) :
    (List.intercalate [sep] parts).count sep + 1 = parts.flatten.count sep + parts.length := by
  induction parts with
  | nil => exact absurd rfl h
  | cons part parts ih =>
    cases parts with
    | nil => simp
    | cons next parts =>
      have ih := ih (by simp)
      rw [List.intercalate_cons_cons, List.append_assoc, List.singleton_append, List.count_append,
        List.count_cons_self, List.flatten_cons, List.count_append, List.length_cons]
      omega

theorem mem_intercalate {sep c : Char} {parts : List (List Char)} (hne : c ≠ sep) :
    c ∈ List.intercalate [sep] parts ↔ ∃ part ∈ parts, c ∈ part := by
  induction parts with
  | nil => simp
  | cons part parts ih =>
    cases parts with
    | nil => simp
    | cons next parts =>
      rw [List.intercalate_cons_cons, List.mem_append, List.mem_append, ih, List.mem_singleton]
      simp only [List.mem_cons, exists_eq_or_imp, hne, or_false]

/-- If a joined text has no more pieces than it had parts, no part holds the separator. -/
theorem not_mem_of_length_splitOn {sep : Char} {parts : List (List Char)} (hne : parts ≠ [])
    (h : ((List.intercalate [sep] parts).splitOn sep).length = parts.length) :
    ∀ part ∈ parts, sep ∉ part := by
  rw [length_splitOn, count_intercalate hne, Nat.add_eq_right, List.count_eq_zero] at h
  intro part hpart hmem
  exact h (List.mem_flatten.2 ⟨part, hpart, hmem⟩)

/-- No piece holds a character at which the text was cut. -/
theorem forall_mem_splitOnP {p : Char → Bool} {cs part : List Char} (h : part ∈ cs.splitOnP p) :
    ∀ c ∈ part, p c = false := by
  induction cs generalizing part with
  | nil =>
    rw [List.splitOnP_nil, List.mem_singleton] at h
    rw [h]
    exact List.forall_mem_nil _
  | cons c cs ih =>
    rw [List.splitOnP_cons_eq_if_modifyHead] at h
    split at h
    · rcases List.mem_cons.1 h with rfl | h
      · exact List.forall_mem_nil _
      · exact ih h
    · rename_i hc
      cases hpieces : cs.splitOnP p with
      | nil => exact absurd hpieces (List.splitOnP_ne_nil p cs)
      | cons first pieces =>
        rw [hpieces] at h ih
        rcases List.mem_cons.1 h with rfl | h
        · exact List.forall_mem_cons.2 ⟨eq_false_of_ne_true hc, ih List.mem_cons_self⟩
        · exact ih (List.mem_cons_of_mem first h)

theorem not_mem_of_mem_splitOn {sep : Char} {cs part : List Char} (h : part ∈ cs.splitOn sep) :
    sep ∉ part := by
  intro hmem
  have hcut := forall_mem_splitOnP h sep hmem
  rw [beq_self_eq_true] at hcut
  exact absurd hcut (by decide)

/-! ### Lines -/

theorem mem_dropReturn {line : List Char} {c : Char} (h : c ∈ dropReturn line) : c ∈ line := by
  rw [dropReturn] at h
  split at h
  · exact List.dropLast_subset _ h
  · exact h

theorem exists_piece_of_mem_linesOfPieces {pieces : List (List Char)} {line : List Char}
    (h : line ∈ linesOfPieces pieces) : ∃ piece ∈ pieces, ∀ c ∈ line, c ∈ piece := by
  induction pieces using linesOfPieces.induct with
  | case1 => exact absurd h List.not_mem_nil
  | case2 last hempty => exact absurd h (by simp [linesOfPieces, hempty])
  | case3 last hfull =>
    obtain rfl : line = last := by simpa [linesOfPieces, hfull] using h
    exact ⟨line, List.mem_singleton_self _, fun _ hc => hc⟩
  | case4 piece rest hrest ih =>
    rw [linesOfPieces] at h
    · rcases List.mem_cons.1 h with rfl | h
      · exact ⟨piece, List.mem_cons_self, fun _ hc => mem_dropReturn hc⟩
      · obtain ⟨p, hp, hsub⟩ := ih h
        exact ⟨p, List.mem_cons_of_mem _ hp, hsub⟩
    · exact hrest

theorem feed_not_mem_of_mem_lines {text line : List Char} (h : line ∈ lines text) :
    '\n' ∉ line := by
  obtain ⟨piece, hpiece, hsub⟩ := exists_piece_of_mem_linesOfPieces h
  exact fun hmem => not_mem_of_mem_splitOn hpiece (hsub _ hmem)

end Mailroom.Text
