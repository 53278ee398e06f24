/-
Searching a file tree by name patterns.

* `Tree.fitting` — the entries of a folder whose names fit;
* `Tree.matchName` — the entries to which one name of a pattern leads;
* `Tree.matchNames` — the entries to which several names lead, one after another;
* `Tree.matching` — the entries whose path fits a pattern, name by name.

An entry is found once for each way that leads to it. There can be several where a pattern
goes up again, or has two stars in more than one place.
-/
import Mailroom.Files.NamePattern
import Mailroom.Files.Tree

namespace Mailroom

namespace Tree

/-- The folders inside of a folder, and the folders inside of these. -/
def foldersIn (t : Tree) (l : Location) : List Location :=
  t.entries.filterMap fun (m, n) =>
    match n with
    | .folder => if l.isPrefixOf m && m != l then some m else none
    | .file _ => none

/-- The entries of a folder whose names fit; a folder has one entry of each name. -/
def fitting (t : Tree) (tokens : List NamePattern.Token) (l : Location) : List Location :=
  let names := ((t.children l).map Prod.fst).eraseDups
  (names.filter fun name => NamePattern.accepts tokens name.toList).map fun name => l ++ [name]

/-- The entries to which one name of a pattern leads from an entry. -/
def matchName (t : Tree) (tokens : List NamePattern.Token) (l : Location) : List Location :=
  match NamePattern.literal? tokens with
  | some [] => [l]
  | some ['.'] => if t.hasFolder l then [l] else []
  | some ['.', '.'] => if t.hasFolder l then [l.dropLast] else []
  | some name =>
    let m := l ++ [String.ofList name]
    if (t.node? m).isSome then [m] else []
  | none => t.fitting tokens l

/-- The entries to which the names of a pattern lead from an entry, once for each way. If the names
come after two stars (`anywhere`), the first of them can be that of any entry farther down. -/
def matchNames (t : Tree) (anywhere : Bool) :
    List (List NamePattern.Token) → Location → List Location
  | [], l => if anywhere then t.foldersIn l else [l]
  | tokens :: names, l =>
    if tokens = [.anyFolders] then t.matchNames true names l
    else if anywhere then
      ((l :: t.foldersIn l).flatMap (t.fitting tokens)).flatMap (t.matchNames false names)
    else (t.matchName tokens l).flatMap (t.matchNames false names)

/-- The entries to which a pattern leads, where a path is a list of names, in the order of
their locations. -/
def matching (t : Tree) (folder : Location) (pattern : String) :
    Except NamePattern.Fault (List Location) := do
  let cs := pattern.toList
  let _ ← NamePattern.parse cs
  let rooted := PathText.isAbsolute pattern
  let names ← ((if rooted then cs.drop 1 else cs).splitOn '/').mapM NamePattern.parse
  let found := t.matchNames false names (if rooted then [] else folder)
  return found.mergeSort fun a b => !List.lex b a (· < ·)

end Tree

end Mailroom
