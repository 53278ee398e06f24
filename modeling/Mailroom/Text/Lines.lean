/-
Cutting a text at a character.

* `cut? sep` — the text before and after the first separator;
* `lines` — the lines of a text: a line ends at a line feed, a carriage return
  before that line feed belongs to the line end, and nothing follows the last
  line feed;
* `unlines` — lines joined again, with a line feed between any two.
-/
namespace Mailroom.Text

/-- The text before and after the first `sep`. -/
def cut? (sep : Char) : List Char → Option (List Char × List Char)
  | [] => none
  | c :: cs =>
    if c = sep then some ([], cs) else (cut? sep cs).map fun (before, after) => (c :: before, after)

/-- At most `n` pieces: the last one keeps the separators that are left. -/
def cutAtMost (sep : Char) : Nat → List Char → List (List Char)
  | 0, _ => []
  | 1, cs => [cs]
  | n + 2, cs =>
    match cut? sep cs with
    | none => [cs]
    | some (before, after) => before :: cutAtMost sep (n + 1) after

/-- A line whose line feed has been taken off, without the carriage return before it. -/
def dropReturn (line : List Char) : List Char :=
  if line.getLast? = some '\r' then line.dropLast else line

/-- Pieces between line feeds, as lines: the last piece is a line only if it is not empty. -/
def linesOfPieces : List (List Char) → List (List Char)
  | [] => []
  | [last] => if last.isEmpty then [] else [last]
  | piece :: rest => dropReturn piece :: linesOfPieces rest

/-- The lines of a text. -/
def lines (cs : List Char) : List (List Char) := linesOfPieces (cs.splitOn '\n')

/-- Lines joined by line feeds. -/
def unlines (ls : List (List Char)) : List Char := List.intercalate ['\n'] ls

/-- A text in front of the rest, taken off. -/
def dropFront? (front cs : List Char) : Option (List Char) :=
  if front.isPrefixOf cs then some (cs.drop front.length) else none

end Mailroom.Text
