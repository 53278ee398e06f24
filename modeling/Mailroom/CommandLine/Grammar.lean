/-
The words of the command line.

A command line names a command and its options; one option, the agent, may stand
before the command too. Every option is written with two hyphens.

* `OptionRule`, `CommandRule` — what may be written;
* `commandRules` — all commands;
* `UsageFault` — why a command line is no command.
-/
namespace Mailroom.CommandLine

/-- What follows the name of an option. -/
inductive Operand where
  | nothing
  | text
  /-- a text that is not empty -/
  | path
  /-- a number of 32 bits -/
  | days
  /-- a number of 64 bits -/
  | seconds
  deriving DecidableEq, Repr

/-- An option and what follows it. -/
structure OptionRule where
  name : String
  operand : Operand
  deriving DecidableEq, Repr

/-- A command, its options, and whether an id has to be given with it. -/
structure CommandRule where
  name : String
  options : List OptionRule
  takesId : Bool
  deriving DecidableEq, Repr

/-- The agent as whom to act, which goes with every command. -/
def agentRule : OptionRule := ⟨"agent", .text⟩

/-- All commands. -/
def commandRules : List CommandRule := [
  ⟨"send", [⟨"to", .text⟩, ⟨"type", .text⟩, ⟨"payload", .text⟩, ⟨"priority", .text⟩,
    ⟨"convoy", .text⟩, ⟨"from", .text⟩, ⟨"transport", .text⟩], false⟩,
  ⟨"check", [⟨"unread-only", .nothing⟩, ⟨"json", .nothing⟩], false⟩,
  ⟨"read", [⟨"json", .nothing⟩], true⟩,
  ⟨"archive", [], true⟩,
  ⟨"prune", [⟨"force", .nothing⟩, ⟨"older-than-days", .days⟩], false⟩,
  ⟨"status", [], false⟩,
  ⟨"register", [⟨"id", .text⟩, ⟨"role", .text⟩, ⟨"branch", .text⟩, ⟨"worktree", .text⟩], false⟩,
  ⟨"deregister", [⟨"id", .text⟩], false⟩,
  ⟨"agents", [⟨"active-only", .nothing⟩, ⟨"json", .nothing⟩], false⟩,
  ⟨"receive", [⟨"transport", .text⟩, ⟨"watch", .nothing⟩, ⟨"interval", .seconds⟩], false⟩,
  ⟨"transport-status", [], false⟩,
  ⟨"migrate", [⟨"from", .path⟩], false⟩]

/-- The command of this name. -/
def commandRule? (name : String) : Option CommandRule := commandRules.find? (·.name == name)

/-- The word that asks for an explanation of a command. -/
def helpWord : String := "help"

/-- Whether a word stands for a command, or asks about one. -/
def isCommandWord (word : String) : Bool := word == helpWord || (commandRule? word).isSome

/-- Why a command line is no command. -/
inductive UsageFault where
  | unknownArgument
  | unknownCommand
  | noCommand
  /-- not a word -/
  | nothingGiven
  | missingId
  | missingValue
  | badValue
  /-- a value after an option that has none -/
  | valueNotTaken
  | repeated
  /-- the user asks for help -/
  | helpWanted
  /-- the user asks for the version -/
  | versionWanted
  deriving DecidableEq, Repr

end Mailroom.CommandLine
