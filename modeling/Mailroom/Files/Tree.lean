/-
The file tree.

A tree lists its files and folders under the names that lead to them from the root.
A file holds bytes, a mailbox database, or a program that can be run; it knows when it
was last modified.

* `Location` — the names from the root;
* `Tree.locate`, `Tree.locateToWrite` — where a path leads from some folder, step by step;
* `Tree.children` — what a folder holds, by name;
* `Tree.readText`, `Tree.write`, `Tree.makeFolders`, `Tree.rename`, `Tree.removeFile` —
  the operations, with the refusals of the system.
-/
import Mailroom.Files.Fault
import Mailroom.Files.PathText
import Mailroom.Store.Basic
import Mailroom.Text.Utf8

namespace Mailroom

/-- What a program leaves when it ends. -/
structure Exit where
  code : Nat
  output : List UInt8
  complaint : List UInt8
  deriving DecidableEq, Repr

/-- What a file holds. -/
inductive Contents where
  | bytes (data : List UInt8)
  | database (d : Database)
  | program (run : List String → Exit)

/-- A file and the time of its last change, in milliseconds since 1970. -/
structure File where
  contents : Contents
  modified : Int

/-- An entry of a tree. -/
inductive Node where
  | file (f : File)
  | folder

/-- The names that lead from the root to an entry. -/
abbrev Location := List String

/-- Files and folders, each location at most once. The root is always a folder. -/
structure Tree where
  entries : List (Location × Node)

namespace Tree

/-- A tree with nothing but its root. -/
def bare : Tree := ⟨[]⟩

/-- The entry at a location. -/
def node? (t : Tree) (l : Location) : Option Node :=
  if l.isEmpty then some .folder else (t.entries.find? (·.1 == l)).map (·.2)

/-- Whether there is a folder. -/
def hasFolder (t : Tree) (l : Location) : Bool :=
  match t.node? l with
  | some .folder => true
  | _ => false

/-- The file at a location. -/
def file? (t : Tree) (l : Location) : Option File :=
  match t.node? l with
  | some (.file f) => some f
  | _ => none

/-- Whether there is a file. -/
def hasFile (t : Tree) (l : Location) : Bool := (t.file? l).isSome

/-- The tree with an entry at a location, in place of the one that was there. -/
def put (t : Tree) (l : Location) (n : Node) : Tree :=
  if t.entries.any (·.1 == l) then ⟨t.entries.map fun e => if e.1 == l then (l, n) else e⟩
  else ⟨t.entries ++ [(l, n)]⟩

/-- The tree without an entry and all that it holds. -/
def erase (t : Tree) (l : Location) : Tree := ⟨t.entries.filter fun e => !l.isPrefixOf e.1⟩

/-- The name of an entry inside of a folder. -/
def nameIn? (folder l : Location) : Option String :=
  match l.getLast? with
  | some name => if l.dropLast = folder then some name else none
  | none => none

/-- What a folder holds, by name. -/
def children (t : Tree) (folder : Location) : List (String × Node) :=
  (t.entries.filterMap fun (l, n) => (nameIn? folder l).map fun name => (name, n)).mergeSort
    fun a b => a.1 ≤ b.1

/-! ### Paths -/

/-- Follows the parts of a path. Every part but the last has to lead into a folder. -/
def follow (t : Tree) : Location → List String → Except FileFault Location
  | here, [] => .ok here
  | here, p :: rest =>
    match t.node? here with
    | none => .error .notFound
    | some (.file _) => .error .notFolder
    | some .folder =>
      if p = "." then t.follow here rest
      else if p = ".." then t.follow here.dropLast rest
      else t.follow (here ++ [p]) rest

/-- Where a path leads from a folder; the last name need not be there. -/
def locate (t : Tree) (folder : Location) (path : String) : Except FileFault Location := do
  if path.isEmpty then throw .notFound
  let l ← t.follow (if PathText.isAbsolute path then [] else folder) (PathText.parts path)
  if path.toList.getLast? = some '/' && t.hasFile l then throw .notFolder
  return l

/-- Where a path leads to a file that is to be written. A slash at its end asks for a folder. -/
def locateToWrite (t : Tree) (folder : Location) (path : String) : Except FileFault Location := do
  if path.isEmpty then throw .notFound
  let l ← t.follow (if PathText.isAbsolute path then [] else folder) (PathText.parts path)
  if path.toList.getLast? = some '/' then throw .isFolder
  return l

/-! ### Operations -/

/-- The contents of a file. -/
def read (t : Tree) (l : Location) : Except FileFault Contents :=
  match t.node? l with
  | none => .error .notFound
  | some .folder => .error .isFolder
  | some (.file f) => .ok f.contents

/-- The text of a file. -/
def readText (t : Tree) (l : Location) : Except FileFault String :=
  match t.read l with
  | .error e => .error e
  | .ok (.bytes data) =>
    match Text.decode? data with
    | some s => .ok s
    | none => .error .notText
  | .ok _ => .error .notText

/-- Whether a new entry may be made at a location: its folder has to be there. -/
def checkParent (t : Tree) (l : Location) : Except FileFault Unit :=
  match t.node? l.dropLast with
  | none => .error .notFound
  | some (.file _) => .error .notFolder
  | some .folder => .ok ()

/-- The tree in which a file holds these contents. -/
def write (t : Tree) (l : Location) (contents : Contents) (now : Int) : Except FileFault Tree := do
  if t.hasFolder l then throw .isFolder
  t.checkParent l
  return t.put l (.file ⟨contents, now⟩)

/-- The folders on the way to a location, and the location itself. -/
def ancestry (l : Location) : List Location :=
  (List.range (l.length + 1)).map l.take

/-- The tree in which a folder and all folders above it are there. -/
def makeFolders (t : Tree) (l : Location) : Except FileFault Tree :=
  match (ancestry l).find? t.hasFile with
  | some blocked => .error (if blocked = l then .alreadyThere else .notFolder)
  | none => .ok ((ancestry l).foldl (fun t l => if t.hasFolder l then t else t.put l .folder) t)

/-- The tree without a file. -/
def removeFile (t : Tree) (l : Location) : Tree := t.erase l

/-- Moves an entry to another location, with all that it holds. A file takes the place
of a file, a folder that of an empty folder. -/
def rename (t : Tree) (source target : Location) : Except FileFault Tree := do
  let some node := t.node? source | throw .notFound
  t.checkParent target
  if source = target then return t
  match node, t.node? target with
  | .file _, some .folder => throw .isFolder
  | .folder, some (.file _) => throw .notFolder
  | .folder, some .folder => if !(t.children target).isEmpty then throw .notEmpty
  | _, _ => pure ()
  let cleared := t.erase target
  return ⟨cleared.entries.map fun (l, n) =>
    (if source.isPrefixOf l then target ++ l.drop source.length else l, n)⟩

end Tree

end Mailroom
