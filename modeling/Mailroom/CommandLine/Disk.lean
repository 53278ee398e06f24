/-
The files of a machine as a tree, and back.

Before a command the files that it may look at are put into a tree; after it, what has
changed in the tree is done on the machine.

* `Tree.withFile`, `Tree.withFolder` — the tree with one more entry, and the folders
  above it;
* `Tree.changes` — what to do on the machine so that it becomes like another tree;
* `headProgram` — a stand-in that tells the branch of a repository.
-/
import Mailroom.Files.Tree
import Mailroom.Store.Document
import Mailroom.Text.Lines

namespace Mailroom

/-- Contents as bytes: a store is written as its document. -/
def Contents.data : Contents → List UInt8
  | .bytes data => data
  | .database d => Text.encodeUtf8 d.render
  | .program _ => []

/-- Bytes as contents: a document is read as a store. -/
def Contents.ofData (data : List UInt8) : Contents :=
  match (Text.decode? data).bind Database.ofText? with
  | some d => .database d
  | none => .bytes data

/-- Something to do on the machine. -/
inductive Change where
  | makeFolder (path : String)
  | write (path : String) (data : List UInt8)
  | remove (path : String)
  deriving DecidableEq, Repr

/-- The path of a location. -/
def Location.path (l : Location) : String := "/" ++ "/".intercalate l

namespace Tree

/-- The tree with one more folder, and the folders above it. -/
def withFolder (t : Tree) (l : Location) : Tree :=
  match t.makeFolders l with
  | .ok t => t
  | .error _ => t

/-- The tree with one more file, and the folders above it. -/
def withFile (t : Tree) (l : Location) (f : File) : Tree :=
  (t.withFolder l.dropLast).put l (.file f)

/-- What to do for a folder that is new. -/
def newFolder? (before : Tree) (l : Location) : Node → Option Change
  | .folder => if before.hasFolder l then none else some (.makeFolder (Location.path l))
  | .file _ => none

/-- What to do for a file that is new or different. -/
def newData? (before : Tree) (l : Location) : Node → Option Change
  | .folder => none
  | .file ⟨.program _, _⟩ => none
  | .file f =>
    if (before.file? l).map (·.contents.data) = some f.contents.data then none
    else some (.write (Location.path l) f.contents.data)

/-- What to do for a file that is gone. -/
def removal? (after : Tree) (l : Location) : Node → Option Change
  | .file _ => if after.hasFile l then none else some (.remove (Location.path l))
  | .folder => none

/-- What to do so that the machine becomes like another tree: folders come first, so that
there is a place for every file, and what is gone comes last. -/
def changes (before after : Tree) : List Change :=
  (after.entries.filterMap fun (l, n) => before.newFolder? l n) ++
    (after.entries.filterMap fun (l, n) => before.newData? l n) ++
    before.entries.filterMap fun (l, n) => after.removal? l n

end Tree

/-- A program that tells the branch which the head file of a repository names. -/
def headProgram (head : List UInt8) : Contents :=
  let branch := match Text.dropFront? "ref: refs/heads/".toList (Text.decodeLossy head) with
    | some name => name
    | none => "HEAD".toList
  .program fun _ => ⟨0, Text.encodeUtf8 (String.ofList branch), []⟩

end Mailroom
