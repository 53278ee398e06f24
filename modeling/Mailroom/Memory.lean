/-
Memories that are programs.

A memory command is a line of words: a program and its first arguments. To remember a
text the program is called with the words `store`, `--content` and `--tags` after
them. Without a command nothing is remembered.

* `MemoryCommand.ofLine?` — the command in a line;
* `MemoryCommand.recorder`, `recorderFor` — the memory behind it.
-/
import Mailroom.Mailbox.Pruning

namespace Mailroom

/-- A program that remembers, and what it is always called with. -/
structure MemoryCommand where
  program : String
  arguments : List String
  deriving DecidableEq, Repr

namespace MemoryCommand

/-- The command in a line. -/
def ofLine? (line : String) : Option MemoryCommand :=
  match (Text.words line.toList).map String.ofList with
  | [] => none
  | program :: arguments => some ⟨program, arguments⟩

/-- The refusal of a program that ended with a failure. -/
def refusal (c : MemoryCommand) (exit : Exit) : Error :=
  .memory (c.program ++ " exited with exit status: " ++ toString exit.code ++ ": " ++
    String.ofList (Text.trim (Text.decodeLossy exit.complaint)))

/-- The memory behind a command. -/
def recorder (c : MemoryCommand) : Recorder Surroundings := fun text tags w =>
  match w.run c.program
      (c.arguments ++ ["store", "--content", text, "--tags", ",".intercalate tags]) with
  | (.error e, w) => (.error (.file e), w)
  | (.ok exit, w) => (if exit.code = 0 then .ok () else .error (c.refusal exit), w)

end MemoryCommand

/-- The memory behind a line, if there is a command in it. -/
def recorderFor (line : Option String) : Recorder Surroundings :=
  match line.bind MemoryCommand.ofLine? with
  | some command => command.recorder
  | none => forget

end Mailroom
