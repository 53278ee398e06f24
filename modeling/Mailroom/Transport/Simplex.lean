/-
The transport over SimpleX.

Lines are sent by a chat program, to a group first and to a contact if that fails.
Lines come in as files that somebody drops into a spool folder. A fetch reads the
files of the spool; committing moves them to the folder `processed` inside the spool
and deletes from there what is more than a week old.

* `SimplexSettings` — the program, the group, the contact and the spool;
* `spoolFiles`, `envelopesInFile` — what a fetch reads;
* `consume`, `sweep` — the two halves of a commit;
* `simplex` — the transport.

A file counts if its name does not begin with a dot. It is read for envelopes only if
its text begins with one, blanks aside; what cannot be read as text holds none.
-/
import Mailroom.Surroundings
import Mailroom.Transport.Basic

namespace Mailroom

/-- Where messages over SimpleX go to and come from. -/
structure SimplexSettings where
  program : String
  group : Option String
  contact : Option String
  spool : String
  deriving DecidableEq, Repr

/-- The folder inside the spool that holds what has been taken over. -/
def processedName : String := "processed"

/-- How long files are kept after they have been taken over, in milliseconds. -/
def retention : Int := 7 * 24 * 60 * 60 * 1000

/-- A fault of the file system as a fault of a transport. -/
def TransportFault.ofFile (e : FileFault) : TransportFault := .file e.message

/-! ### The spool -/

/-- The envelopes in the text of a spool file. -/
def envelopesInText (text : List Char) : List Envelope :=
  if looksLikeEnvelope text then
    ((Text.lines text).filter looksLikeEnvelope).filterMap Envelope.decodeChars?
  else []

/-- The envelopes in a spool file. -/
def envelopesInFile (f : File) : List Envelope :=
  match f.contents with
  | .bytes data =>
    match Text.decode? data with
    | some s => envelopesInText s.toList
    | none => []
  | _ => []

/-- Whether a name is hidden. -/
def isHidden (name : String) : Bool := name.toList.head? == some '.'

/-- The files among some entries that are not hidden. -/
def visibleFiles (entries : List (String × Node)) : List (String × File) :=
  entries.filterMap fun (name, node) =>
    match node with
    | .file f => if isHidden name then none else some (name, f)
    | .folder => none

/-- The files of the spool that a fetch reads, by name. -/
def spoolFiles (spool : String) (w : Surroundings) : Except FileFault (List (String × File)) := do
  return visibleFiles (← w.children spool)

/-- What a fetch gives. -/
def spoolFetch (spool : String) (w : Surroundings) : Except TransportFault Fetched :=
  if !w.isFolder spool then .ok .nothing
  else
    match spoolFiles spool w with
    | .error e => .error (.ofFile e)
    | .ok files => .ok ⟨files.flatMap fun (_, f) => envelopesInFile f,
        .files (files.map fun (name, _) => PathText.join spool name)⟩

/-- Moves files into the folder of what has been taken over. -/
def consume (processed : String) : List String → Surroundings → Except FileFault Unit × Surroundings
  | [], w => (.ok (), w)
  | path :: rest, w =>
    match PathText.fileName? path with
    | none => consume processed rest w
    | some name =>
      let moved := do
        let source ← w.locate path
        let target ← w.locate (PathText.join processed name)
        w.tree.rename source target
      match moved with
      | .error e => (.error e, w)
      | .ok tree => consume processed rest { w with tree }

/-- Deletes the files that were taken over more than a week ago. -/
def sweep (processed : String) (w : Surroundings) : Surroundings :=
  match w.locate processed with
  | .error _ => w
  | .ok l =>
    let old := (w.tree.children l).filterMap fun (name, node) =>
      match node with
      | .file f => if retention < w.millis - f.modified then some (l ++ [name]) else none
      | .folder => none
    { w with tree := old.foldl Tree.removeFile w.tree }

/-- Takes over the files of a checkpoint. -/
def spoolCommit (spool : String) (checkpoint : Checkpoint) (w : Surroundings) :
    Except TransportFault Unit × Surroundings :=
  let processed := PathText.join spool processedName
  match checkpoint with
  | .files [] => (.ok (), sweep processed w)
  | .files paths =>
    match w.makeFolders processed with
    | .error e => (.error (.ofFile e), w)
    | .ok w =>
      match consume processed paths w with
      | (.error e, w) => (.error (.ofFile e), w)
      | (.ok (), w) => (.ok (), sweep processed w)
  | _ => (.ok (), w)

/-! ### Sending -/

/-- Has the chat program carry out a command. -/
def runChat (program command : String) (w : Surroundings) :
    Except TransportFault Unit × Surroundings :=
  match w.run program ["-e", command, "-t", "3"] with
  | (.error e, w) => (.error (.ofFile e), w)
  | (.ok exit, w) =>
    if exit.code = 0 then (.ok (), w)
    else
      (.error (.refused (program ++ " exited with exit status: " ++ toString exit.code ++ ": " ++
        String.ofList (Text.trim (Text.decodeLossy exit.complaint)))), w)

/-- Sends a line to the group, and to the contact if there is no group or it failed. -/
def simplexSend (s : SimplexSettings) (line : String) (w : Surroundings) :
    Except TransportFault Unit × Surroundings :=
  if (w.findProgram s.program).isNone then
    (.error (.notAvailable (s.program ++ " not found")), w)
  else
    match s.group, s.contact with
    | none, none => (.error (.notConfigured "set a SimpleX group or contact"), w)
    | some group, none => runChat s.program ("#" ++ group ++ " " ++ line) w
    | none, some contact => runChat s.program ("@" ++ contact ++ " " ++ line) w
    | some group, some contact =>
      match runChat s.program ("#" ++ group ++ " " ++ line) w with
      | (.ok (), w) => (.ok (), w)
      | (.error _, w) => runChat s.program ("@" ++ contact ++ " " ++ line) w

/-- Where messages go to and come from, for people. -/
def SimplexSettings.describe (s : SimplexSettings) : String :=
  (match s.group, s.contact with
    | some g, some c => "group #" ++ g ++ " (fallback @" ++ c ++ ")"
    | some g, none => "group #" ++ g
    | none, some c => "contact @" ++ c
    | none, none => "no group or contact configured") ++ "; spool " ++ s.spool

/-- The transport over SimpleX. -/
def simplex (s : SimplexSettings) : Transport Surroundings where
  name := Selector.simplex.name
  isNetwork := true
  available w := (w.findProgram s.program).isSome
  canReceive w := w.isFolder s.spool
  describe _ := s.describe
  send := simplexSend s
  fetch w := (spoolFetch s.spool w, w)
  commit := spoolCommit s.spool

end Mailroom
