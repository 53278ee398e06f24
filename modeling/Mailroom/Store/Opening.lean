/-
Stores in files.

* `Surroundings.openStore` — the store in a file, which is made if it is not there and
  brought to the present schema;
* `Surroundings.keepStore` — writes a store back.
-/
import Mailroom.Error
import Mailroom.Surroundings

namespace Mailroom

/-- The database in a file: an empty file holds an empty one. -/
def Contents.toDatabase : Contents → Except StorageFault Database
  | .bytes [] => .ok .blank
  | .database d => .ok d
  | _ => .error .notDatabase

namespace Surroundings

/-- The database at a path; where nothing is, an empty one. -/
def database (w : Surroundings) (path : String) : Except StorageFault Database :=
  match w.locate path with
  | .error _ => .error (.cannotOpen path)
  | .ok l =>
    match w.tree.node? l with
    | none => .ok .blank
    | some .folder => .error (.cannotOpen path)
    | some (.file f) => f.contents.toDatabase

/-- The surroundings in which a file holds a store. -/
def keepStore (w : Surroundings) (path : String) (s : Store) : Except Error Surroundings :=
  (w.write path (.database s.database)).mapError .file

/-- Opens the store in a file. The folders above the file are made first. -/
def openStore (w : Surroundings) (path : String) : Except Error (Store × Surroundings) := do
  let w ← (w.makeParent path).mapError .file
  let s := (← (w.database path).mapError .storage).upgrade
  return (s, ← w.keepStore path s)

end Surroundings

end Mailroom
