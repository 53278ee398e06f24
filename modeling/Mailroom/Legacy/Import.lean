/-
Taking over a legacy mailbox.

A legacy mailbox is a folder with the folders `inbox`, `outbox` and `archive`, in
which the files named `*.toon` hold one record each. The three are taken over in this
order, and the files of each in the order of their names; a message whose id is
stored already is left as it is.

* `Import` — what came of it;
* `legacyFiles` — the files of one of the folders;
* `Store.takeOver` — the store with the messages of the legacy mailbox.

The path of the folder is part of a name pattern, so that the characters of patterns
in it have their meaning there.
-/
import Mailroom.Files.Search
import Mailroom.Legacy.Record
import Mailroom.Store.Messages
import Mailroom.Surroundings

namespace Mailroom

/-- How many records were added, were there already, or could not be read. -/
structure Import where
  imported : Nat
  duplicates : Nat
  skipped : Nat
  deriving DecidableEq, Repr

/-- The folders of a legacy mailbox, in the order in which they are taken over, and
whether their messages are archived. -/
def legacyFolders : List (String × Bool) :=
  [("inbox", false), ("outbox", false), ("archive", true)]

/-- The files of a legacy folder. -/
def legacyFiles (w : Surroundings) (folder : String) : Except Error (List Location) :=
  if w.isFolder folder then
    (w.tree.matching w.folder (PathText.join folder "*.toon")).mapError .pattern
  else .ok []

/-- Takes over one file. -/
def takeOverFile (w : Surroundings) (archived : Bool) (state : Store × Import) (l : Location) :
    Store × Import :=
  let (s, report) := state
  match w.tree.readText l with
  | .error _ => (s, { report with skipped := report.skipped + 1 })
  | .ok content =>
    match LegacyRecord.parse content archived with
    | .error _ => (s, { report with skipped := report.skipped + 1 })
    | .ok m =>
      let (s, added) := s.ingest m
      (s, if added then { report with imported := report.imported + 1 }
        else { report with duplicates := report.duplicates + 1 })

/-- Takes over the folders that are left. What was stored before a refusal stays. -/
def takeOverFolders (w : Surroundings) (path : String) :
    List (String × Bool) → Store × Import → Except Error Import × Store
  | [], (s, report) => (.ok report, s)
  | (name, archived) :: rest, state =>
    match legacyFiles w (PathText.join path name) with
    | .error e => (.error e, state.1)
    | .ok files => takeOverFolders w path rest (files.foldl (takeOverFile w archived) state)

/-- The store with the messages of a legacy mailbox. -/
def Store.takeOver (s : Store) (w : Surroundings) (path : String) : Except Error Import × Store :=
  if w.isFolder path then takeOverFolders w path legacyFolders (s, ⟨0, 0, 0⟩)
  else (.error (.notFound (.legacyFolder path)), s)

end Mailroom
