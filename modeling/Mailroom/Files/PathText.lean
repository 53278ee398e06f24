/-
Paths as texts.

A path is a text in which slashes stand between names. Repeated slashes count as one,
and so do steps `.` except one at the very front.

* `parts` — the names and steps of a path;
* `join` — a path inside of another one, unless it begins at the root itself;
* `fileName?` — the last name.
-/
namespace Mailroom.PathText

/-- Whether a path begins at the root. -/
def isAbsolute (path : String) : Bool := path.toList.head? == some '/'

/-- The names and steps of a path, after the root if it begins there. A step `.` counts
at the front of a path that does not begin at the root. -/
def parts (path : String) : List String :=
  let all := (path.toList.splitOn '/').map String.ofList
  let names := all.filter fun p => p != "" && p != "."
  if all.head? = some "." then "." :: names else names

/-- The number of parts, where the root is one. -/
def depth (path : String) : Nat := (parts path).length + if isAbsolute path then 1 else 0

/-- A path inside of a folder. -/
def join (folder path : String) : String :=
  if isAbsolute path || folder.isEmpty then path
  else if folder.toList.getLast? = some '/' then folder ++ path
  else folder ++ "/" ++ path

/-- The last part, if it is a name. -/
def fileName? (path : String) : Option String :=
  (parts path).getLast?.filter fun p => p != "." && p != ".."

end Mailroom.PathText
