/-
What surrounds the program: files, other programs, the network and the clock.

Everything the program can look at or change outside of itself is one value, and an
operation on it gives the next one. What has been done to others is kept in a journal.

* `Surroundings.locate`, `isFile`, `isFolder`, `readText`, `writeText` — files by path;
* `Surroundings.findProgram`, `run` — programs, by path or on the search path;
* `Surroundings.request` — one exchange over the network;
* `Surroundings.now`, `nextIds`, `draw` — the clock and fresh ids.
-/
import Mailroom.Files.Tree
import Mailroom.Json.Value
import Mailroom.Time.Instant
import Mailroom.Ulid

namespace Mailroom

/-- A request over the network. -/
structure Request where
  method : String
  url : String
  authorization : String
  body : Option Json.Value

/-- What comes back for a request. -/
inductive Reply where
  /-- nothing: the other side cannot be reached or hangs up -/
  | nothing
  | answer (status : Nat) (body : List UInt8)

/-- Something done to others. -/
inductive Deed where
  /-- the program at a location was run -/
  | ran (program : Location) (arguments : List String)
  | asked (request : Request)

/-- What an in-process channel holds: lines that came in, lines that were sent, and
how far the lines that came in have been taken over. -/
structure Channel where
  inbound : List String
  sent : List String
  offset : Nat

/-- A channel that nothing has passed. -/
def Channel.quiet : Channel := ⟨[], [], 0⟩

/-- All that is outside of the program. -/
structure Surroundings where
  tree : Tree
  /-- the current folder -/
  folder : Location
  /-- the folders in which programs are looked for -/
  searchPath : List String
  environment : List (String × String)
  processId : Nat
  clock : Time.Instant
  /-- the random number of the next identifier -/
  seed : Nat
  /-- what the network will answer to the next requests; after that, nothing -/
  replies : List Reply
  /-- what was done to others, in order -/
  journal : List Deed
  /-- lines in the rooms that in-process channels share -/
  rooms : List (String × List String)
  /-- in-process channels by name -/
  channels : List (String × Channel)

namespace Surroundings

/-! ### Files -/

/-- Where a path leads. -/
def locate (w : Surroundings) (path : String) : Except FileFault Location :=
  w.tree.locate w.folder path

/-- The entry that a path leads to. -/
def node? (w : Surroundings) (path : String) : Option Node :=
  match w.locate path with
  | .ok l => w.tree.node? l
  | .error _ => none

/-- Whether a path leads to a file. -/
def isFile (w : Surroundings) (path : String) : Bool :=
  match w.node? path with
  | some (.file _) => true
  | _ => false

/-- Whether a path leads to a folder. -/
def isFolder (w : Surroundings) (path : String) : Bool :=
  match w.node? path with
  | some .folder => true
  | _ => false

/-- Whether a path leads anywhere. -/
def isThere (w : Surroundings) (path : String) : Bool := (w.node? path).isSome

/-- The text of the file that a path leads to. -/
def readText (w : Surroundings) (path : String) : Except FileFault String := do
  w.tree.readText (← w.locate path)

/-- What the folder at a path holds, by name. -/
def children (w : Surroundings) (path : String) : Except FileFault (List (String × Node)) := do
  let l ← w.locate path
  match w.tree.node? l with
  | none => throw .notFound
  | some (.file _) => throw .notFolder
  | some .folder => return w.tree.children l

/-- The current folder as a path, if it is still there. -/
def folderPath? (w : Surroundings) : Option String :=
  if w.tree.hasFolder w.folder then some ("/" ++ "/".intercalate w.folder) else none

/-- Milliseconds since 1970. -/
def millis (w : Surroundings) : Int :=
  w.clock.seconds * 1000 + (w.clock.nanos / 1000000 : Nat)

/-- Creates the folder that a path leads to, and all folders above it. -/
def makeFolders (w : Surroundings) (path : String) : Except FileFault Surroundings := do
  let parts := PathText.parts path
  let start := if PathText.isAbsolute path then [] else w.folder
  let l := parts.foldl (fun l p =>
    if p = "." then l else if p = ".." then l.dropLast else l ++ [p]) start
  return { w with tree := ← w.tree.makeFolders l }

/-- Creates the folder of a file, and all folders above it. -/
def makeParent (w : Surroundings) (path : String) : Except FileFault Surroundings :=
  match (PathText.parts path).dropLast with
  | [] => .ok w
  | parents =>
    w.makeFolders ((if PathText.isAbsolute path then "/" else "") ++ "/".intercalate parents)

/-- Writes a file. -/
def write (w : Surroundings) (path : String) (contents : Contents) :
    Except FileFault Surroundings := do
  return { w with tree := ← w.tree.write (← w.locate path) contents w.millis }

/-- Writes a text file. -/
def writeText (w : Surroundings) (path text : String) : Except FileFault Surroundings := do
  let l ← w.tree.locateToWrite w.folder path
  return { w with tree := ← w.tree.write l (.bytes (Text.encodeUtf8 text)) w.millis }

/-! ### Programs -/

/-- The path of a program: a path of several parts has to lead to a file; a single
name is looked for on the search path. -/
def findProgram (w : Surroundings) (program : String) : Option String :=
  if 1 < PathText.depth program then (if w.isFile program then some program else none)
  else (w.searchPath.map (PathText.join · program)).find? w.isFile

/-- The greatest length of one argument, in bytes. -/
def longestArgument : Nat := 131071

/-- The program among some paths that can be run; an entry that is no program is
refused only if none is found. -/
def firstRunnable (w : Surroundings) :
    FileFault → List String → Except FileFault (Location × (List String → Exit))
  | fault, [] => .error fault
  | fault, path :: rest =>
    match w.locate path with
    | .error e => firstRunnable w (if fault = .notPermitted then fault else e) rest
    | .ok l =>
      match w.tree.node? l with
      | none => firstRunnable w fault rest
      | some (.file ⟨.program respond, _⟩) => .ok (l, respond)
      | some _ => firstRunnable w .notPermitted rest

/-- Runs a program to its end. -/
def run (w : Surroundings) (program : String) (arguments : List String) :
    Except FileFault Exit × Surroundings :=
  if (program :: arguments).any fun a => a.toList.contains (Char.ofNat 0) then (.error .zeroByte, w)
  else
    let paths :=
      if program.isEmpty then []
      else if program.toList.contains '/' then [program]
      else w.searchPath.map (PathText.join · program)
    match w.firstRunnable .notFound paths with
    | .error e => (.error e, w)
    | .ok (l, respond) =>
      if arguments.any fun a => longestArgument < a.utf8ByteSize then (.error .tooLong, w)
      else (.ok (respond arguments), { w with journal := w.journal ++ [Deed.ran l arguments] })

/-! ### The network, the clock and chance -/

/-- Sends a request and takes what comes back. -/
def request (w : Surroundings) (r : Request) : Reply × Surroundings :=
  let w := { w with journal := w.journal ++ [Deed.asked r] }
  match w.replies with
  | [] => (.nothing, w)
  | reply :: rest => (reply, { w with replies := rest })

/-- The value of an environment variable. -/
def environmentValue? (w : Surroundings) (name : String) : Option String :=
  (w.environment.find? (·.1 == name)).map (·.2)

/-- The stamp of the present moment. -/
def now (w : Surroundings) : String := w.clock.stamp

/-- The stamp of the moment `n` milliseconds from now. -/
def nowAfter (w : Surroundings) (n : Nat) : String := (w.clock.plusMillis n).stamp

/-- The ids of the next messages. -/
def nextIds (w : Surroundings) (n : Nat) : String := messageId w.clock.unixMillis (w.seed + n)

/-- The surroundings after `n` identifiers have been drawn. -/
def draw (w : Surroundings) (n : Nat) : Surroundings := { w with seed := w.seed + n }

/-! ### Channels -/

/-- A channel. -/
def channel (w : Surroundings) (name : String) : Channel :=
  ((w.channels.find? (·.1 == name)).map (·.2)).getD .quiet

/-- The surroundings with a channel changed. -/
def setChannel (w : Surroundings) (name : String) (c : Channel) : Surroundings :=
  { w with channels := (name, c) :: w.channels.filter (·.1 != name) }

/-- The lines of a room. -/
def room (w : Surroundings) (name : String) : List String :=
  ((w.rooms.find? (·.1 == name)).map (·.2)).getD []

/-- The surroundings with one more line in a room. -/
def say (w : Surroundings) (name line : String) : Surroundings :=
  { w with rooms := (name, w.room name ++ [line]) :: w.rooms.filter (·.1 != name) }

end Surroundings

end Mailroom
