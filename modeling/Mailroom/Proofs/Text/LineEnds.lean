/-
What the ends of lines do to a text.

A text is a line, its end and another text, or a last line. What is shown for the two kinds of text
holds of all, so that a text can be taken apart line by line.

* `linewise_induction` — this way of taking a text apart;
* `IsLine`, `lines_append_end` — a line in front of a text, ended in either way, is its first line;
* `withFeeds` — a text with a line feed for each line end;
* `trim_unlines_lines` — lines joined again are this text, but for what stands around it.
-/
import Mailroom.Proofs.EnvelopeReading
import Mailroom.Proofs.Text.Pieces

namespace Mailroom.Text

/-- What ends a line. -/
inductive LineEnd where
  | feed
  | returnFeed
  deriving DecidableEq, Repr

/-- The characters that end a line. -/
def LineEnd.chars : LineEnd → List Char
  | feed => ['\n']
  | returnFeed => ['\r', '\n']

/-! ### Line by line -/

/-- Every text is a last line, or a line in front of another text. -/
theorem linewise_induction {P : List Char → Prop} (last : ∀ line, '\n' ∉ line → P line)
    (more : ∀ line rest, '\n' ∉ line → P rest → P (line ++ '\n' :: rest)) (cs : List Char) :
    P cs := by
  induction h : cs.length using Nat.strongRecOn generalizing cs with
  | ind n ih =>
    cases hcut : cut? '\n' cs with
    | none => exact last cs (cut?_eq_none_iff.1 hcut)
    | some parts =>
      obtain ⟨line, rest⟩ := parts
      obtain ⟨rfl, hline⟩ := cut?_eq_some_iff.1 hcut
      refine more line rest hline (ih rest.length ?_ rest rfl)
      rw [← h, List.length_append, List.length_cons]
      omega

theorem lines_last {line : List Char} (h : '\n' ∉ line) :
    lines line = if line.isEmpty then [] else [line] := by
  rw [lines, List.splitOn_eq_singleton h]
  rfl

theorem lines_append_feed {line : List Char} (h : '\n' ∉ line) (rest : List Char) :
    lines (line ++ '\n' :: rest) = dropReturn line :: lines rest := by
  rw [lines, List.splitOn_append_cons_self, List.splitOn_eq_singleton h, List.singleton_append,
    linesOfPieces, lines]
  exact fun hnil => List.splitOn_ne_nil '\n' rest hnil

theorem eq_nil_of_lines_eq_nil {cs : List Char} (h : lines cs = []) : cs = [] := by
  induction cs using linewise_induction with
  | last line hline =>
    rw [lines_last hline] at h
    cases line with
    | nil => rfl
    | cons c line => exact absurd h nofun
  | more line rest hline _ =>
    rw [lines_append_feed hline] at h
    exact absurd h nofun

theorem dropReturn_of_getLast?_ne {line : List Char} (h : line.getLast? ≠ some '\r') :
    dropReturn line = line := if_neg h

/-- A text that an end of a line can follow. -/
structure IsLine (line : List Char) : Prop where
  feed_not_mem : '\n' ∉ line
  no_return : line.getLast? ≠ some '\r'

theorem dropReturn_concat (line : List Char) : dropReturn (line ++ ['\r']) = line := by
  rw [dropReturn, if_pos List.getLast?_concat, List.dropLast_concat]

/-- A line in front of a text, ended in either way, is its first line. -/
theorem lines_append_end {line : List Char} (h : IsLine line) (e : LineEnd) (rest : List Char) :
    lines (line ++ (e.chars ++ rest)) = line :: lines rest := by
  cases e with
  | feed =>
    show lines (line ++ '\n' :: rest) = _
    rw [lines_append_feed h.feed_not_mem, dropReturn_of_getLast?_ne h.no_return]
  | returnFeed =>
    have hmore : '\n' ∉ line ++ ['\r'] := by
      rw [List.mem_append, not_or]
      exact ⟨h.feed_not_mem, by decide⟩
    show lines (line ++ '\r' :: '\n' :: rest) = _
    rw [List.append_cons, lines_append_feed hmore, dropReturn_concat]

/-! ### Joining the lines again -/

/-- A text with a line feed for each carriage return and line feed. -/
def withFeeds : List Char → List Char
  | '\r' :: '\n' :: cs => '\n' :: withFeeds cs
  | c :: cs => c :: withFeeds cs
  | [] => []

theorem withFeeds_cons {c : Char} {cs : List Char} (h : c = '\r' → cs.head? ≠ some '\n') :
    withFeeds (c :: cs) = c :: withFeeds cs := by
  rw [withFeeds]
  rintro rest rfl rfl
  exact h rfl rfl

theorem dropReturn_cons {c : Char} {cs : List Char} (h : c = '\r' → cs ≠ []) :
    dropReturn (c :: cs) = c :: dropReturn cs := by
  cases cs with
  | nil => exact dropReturn_of_getLast?_ne fun hc => h (Option.some.inj hc) rfl
  | cons d cs =>
    rw [dropReturn, dropReturn, List.getLast?_cons_cons]
    split
    · rw [List.dropLast_cons_cons]
    · rfl

theorem withFeeds_last {line : List Char} (h : '\n' ∉ line) : withFeeds line = line := by
  induction line with
  | nil => rfl
  | cons c cs ih =>
    rw [List.mem_cons, not_or] at h
    rw [withFeeds_cons fun _ hhead => h.2 (List.mem_of_head? hhead), ih h.2]

theorem withFeeds_append_feed {line : List Char} (h : '\n' ∉ line) (rest : List Char) :
    withFeeds (line ++ '\n' :: rest) = dropReturn line ++ '\n' :: withFeeds rest := by
  induction line with
  | nil => exact withFeeds_cons fun hc => absurd hc (by decide)
  | cons c cs ih =>
    rw [List.mem_cons, not_or] at h
    by_cases hend : c = '\r' ∧ cs = []
    · obtain ⟨rfl, rfl⟩ := hend
      show '\n' :: withFeeds rest = _
      rfl
    · have hcs : c = '\r' → cs ≠ [] := fun hc hnil => hend ⟨hc, hnil⟩
      have hnext : c = '\r' → (cs ++ '\n' :: rest).head? ≠ some '\n' := by
        intro hc hhead
        obtain ⟨d, ds, rfl⟩ := List.exists_cons_of_ne_nil (hcs hc)
        exact h.2 (List.mem_of_head? hhead)
      rw [List.cons_append, withFeeds_cons hnext, ih h.2, dropReturn_cons hcs, List.cons_append]

/-- Lines joined again are the text with line feeds, which may end with one more. -/
theorem withFeeds_eq (cs : List Char) :
    withFeeds cs = unlines (lines cs) ∨ withFeeds cs = unlines (lines cs) ++ ['\n'] := by
  induction cs using linewise_induction with
  | last line hline =>
    left
    rw [withFeeds_last hline, lines_last hline]
    cases line with
    | nil => rfl
    | cons c cs => exact (List.intercalate_singleton ..).symm
  | more line rest hline ih =>
    rw [withFeeds_append_feed hline, lines_append_feed hline]
    cases hrest : lines rest with
    | nil =>
      obtain rfl := eq_nil_of_lines_eq_nil hrest
      right
      rw [unlines, List.intercalate_singleton]
      rfl
    | cons next others =>
      have hunlines : unlines (dropReturn line :: next :: others) =
          dropReturn line ++ '\n' :: unlines (next :: others) := by
        rw [unlines, List.intercalate_cons_cons, List.append_assoc, List.singleton_append, unlines]
      rw [hunlines, ← hrest]
      rcases ih with ih | ih
      · exact .inl (by rw [ih])
      · exact .inr (by rw [ih, List.append_assoc, List.cons_append])

/-! ### Blanks around a text -/

theorem trimEnd_append_blanks {bs : List Char} (h : ∀ b ∈ bs, isBlank b = true) (cs : List Char) :
    trimEnd (cs ++ bs) = trimEnd cs := by
  have hblank : ∀ b ∈ bs.reverse, isBlank b = true := fun b hb => h b (List.mem_reverse.1 hb)
  rw [trimEnd, List.reverse_append, List.dropWhile_append_of_pos hblank, trimEnd]

theorem trim_append_blanks {bs : List Char} (h : ∀ b ∈ bs, isBlank b = true) (cs : List Char) :
    trim (cs ++ bs) = trim cs := by
  rw [trim, trim, trimStart, List.dropWhile_append]
  split
  · rename_i hnil
    have hbs : bs.dropWhile isBlank = [] := by
      rw [← List.append_nil bs, List.dropWhile_append_of_pos h, List.dropWhile_nil]
    rw [hbs, trimStart, List.isEmpty_iff.1 hnil]
  · exact trimEnd_append_blanks h _

theorem trim_unlines_lines (cs : List Char) : trim (unlines (lines cs)) = trim (withFeeds cs) := by
  rcases withFeeds_eq cs with h | h
  · rw [h]
  · rw [h, trim_append_blanks (List.forall_mem_singleton.2 rfl)]

end Mailroom.Text
