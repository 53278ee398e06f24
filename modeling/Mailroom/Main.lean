/-
The program.

It knows the machine by the files that it reads before a command: its own in the home
folder, those that the settings name, and the head of the repository around the current
folder. A command that looks into folders is told what is in them: the paths of the
files stand on standard input, one on a line. After the command the changes are made on
the machine. Programs and the network cannot be reached from here; sending to other
machines is noted as failed.
-/
import Mailroom.CommandLine.Disk
import Mailroom.CommandLine.Perform
import Mailroom.CommandLine.Usage

namespace Mailroom.Program

open CommandLine

/-- The bytes of a file, if it can be read. -/
def readData? (path : String) : IO (Option (List UInt8)) := do
  try return some (← IO.FS.readBinFile path).toList catch _ => return none

/-- The text of a file, or nothing. -/
def readTextOf (path : String) : IO String := do
  return String.ofList (Text.decodeLossy ((← readData? path).getD []))

/-- The present moment: the time of the start of the machine, and how long ago it was. -/
def readClock : IO Time.Instant := do
  let start := ((← readTextOf "/proc/stat").splitOn "btime ").getD 1 ""
  let seconds := (Text.natural? (start.toList.takeWhile Char.isDigit)).getD 0
  let upFor := (← readTextOf "/proc/uptime").toList
  let whole := (Text.natural? (upFor.takeWhile Char.isDigit)).getD 0
  let hundredths := (Text.natural? (((upFor.dropWhile Char.isDigit).drop 1).take 2)).getD 0
  return ⟨seconds + whole, hundredths * 10000000⟩

/-- The number of this process. -/
def readProcessId : IO Nat := do
  return (Text.natural? ((← readTextOf "/proc/self/stat").toList.takeWhile Char.isDigit)).getD 1

/-- A random number of 80 bits. -/
def drawSeed : IO Nat := do
  return (← IO.getRandomBytes 10).toList.foldl (fun n b => 256 * n + b.toNat) 0

/-- The variables that replace settings. -/
def readEnvironment : IO (List (String × String)) := do
  let names := ["AGENT_ID", "TRANSPORT", "PRUNE_DAYS", "MEMORY_CMD", "SIMPLEX_BIN", "SIMPLEX_GROUP",
    "SIMPLEX_CONTACT", "MATRIX_ROOM", "MATRIX_CREDENTIALS"].map ("AGENT_MAIL_" ++ ·)
  let found ← names.mapM fun name => do return (← IO.getEnv name).map fun value => (name, value)
  return found.filterMap id

/-- The lines that are left on a stream. -/
partial def readLines (input : IO.FS.Stream) : IO (List String) := do
  let line ← input.getLine
  if line.isEmpty then return []
  return (line.dropEndWhile (· == '\n')).toString :: (← readLines input)

/-- The tree with a file of the machine, if it can be read; a path with a slash at its
end is a folder. -/
def addPath (folder : Location) (now : Int) (t : Tree) (path : String) : IO Tree := do
  let l := (if PathText.isAbsolute path then [] else folder) ++ PathText.parts path
  if path.endsWith "/" then return t.withFolder l
  match ← readData? path with
  | none => return t
  | some data => return t.withFile l ⟨.ofData data, now⟩

/-- The head file of the repository around a folder. -/
def readHead : List Location → IO (Option (List UInt8))
  | [] => return none
  | l :: ls => do
    match ← readData? (Location.path (l ++ [".git", "HEAD"])) with
    | some data => return some data
    | none => readHead ls

/-- Where the stand-ins for programs are. -/
def programFolder : Location := ["stand-ins"]

/-- The machine as far as it is known at first: the current folder and the settings. -/
def readMachine (home : String) : IO Surroundings := do
  let clock ← readClock
  let folder := PathText.parts (((← IO.getEnv "PWD")).getD "/")
  let w : Surroundings := {
    tree := (Tree.bare).withFolder folder
    folder
    searchPath := [Location.path programFolder]
    environment := ← readEnvironment
    processId := ← readProcessId
    clock
    seed := ← drawSeed
    replies := []
    journal := []
    rooms := []
    channels := [] }
  let tree ← addPath folder w.millis w.tree (PathText.join home "settings.json")
  match ← readHead ((Tree.ancestry folder).reverse) with
  | none => return { w with tree }
  | some head =>
    return { w with tree := tree.withFile (programFolder ++ ["git"]) ⟨headProgram head, w.millis⟩ }

/-- Makes a change on the machine. -/
def makeChange : Change → IO Unit
  | .makeFolder path => if path.startsWith (Location.path programFolder) then return ()
    else IO.FS.createDirAll path
  | .write path data => IO.FS.writeBinFile path (ByteArray.mk data.toArray)
  | .remove path => IO.FS.removeFile path

/-- Whether a command has to be told what is in its folders. -/
def looksIntoFolders : Command → Bool
  | .receive _ | .watch _ _ | .transports | .migrate _ => true
  | _ => false

/-- Carries out a command once, and says whether it went well. -/
def carryOut (i : Invocation) (home : String) : IO Bool := do
  let w ← readMachine home
  match Config.load home w with
  | .error e =>
    IO.eprintln ("Error: " ++ e.message)
    return false
  | .ok c =>
    let named ← if looksIntoFolders i.command then readLines (← IO.getStdin) else pure []
    let own := [c.storeFile, c.credentialsFile, c.cursorFile]
    let tree ← (own ++ named).foldlM (addPath w.folder w.millis) w.tree
    let done := i.perform c { w with tree }
    (Tree.changes tree done.world.tree).forM makeChange
    IO.print done.output
    match done.result with
    | .ok () => return true
    | .error e =>
      IO.eprintln ("Error: " ++ e.message)
      return false

/-- Carries out a command, again and again if it is a watch. -/
partial def carryOutAll (i : Invocation) (home : String) : IO UInt32 := do
  if ← carryOut i home then
    match i.command.pause? with
    | none => return 0
    | some seconds =>
      IO.sleep (1000 * seconds).toUInt32
      carryOutAll i home
  else return 1

end Mailroom.Program

open Mailroom.CommandLine Mailroom.Program in
/-- Reads the command line and carries out the command. -/
def main (words : List String) : IO UInt32 := do
  match Mailroom.Invocation.ofWords words with
  | .error .helpWanted =>
    usageLines.forM IO.println
    return 0
  | .error .versionWanted =>
    IO.println "agent-mail 0.1.0"
    return 0
  | .error fault =>
    IO.eprintln ("error: " ++ fault.message)
    usageLines.forM IO.eprintln
    return 2
  | .ok invocation =>
    match Mailroom.homeFolder (← IO.getEnv "AGENT_MAIL_HOME") (← IO.getEnv "HOME") with
    | .error fault =>
      IO.eprintln ("Error: " ++ (Mailroom.Error.config fault).message)
      return 1
    | .ok home => carryOutAll invocation home
