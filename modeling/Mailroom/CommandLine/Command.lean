/-
Commands.

* `Command` — what the program can be asked to do;
* `Command.ofLine?` — the command of a line that has been read;
* `Invocation.ofWords` — the command of a command line, with the agent as whom to act.
-/
import Mailroom.CommandLine.Words
import Mailroom.Mailbox.Draft
import Mailroom.Mailbox.Enrolment

namespace Mailroom

open CommandLine

/-- What the program can be asked to do. -/
inductive Command where
  | send (draft : Draft)
  | check (unreadOnly json : Bool)
  | read (id : String) (json : Bool)
  | archive (id : String)
  | prune (force : Bool) (days : Option Nat)
  | status
  | register (registration : Registration)
  | deregister (id : Option String)
  | agents (activeOnly json : Bool)
  | receive (transport : Option String)
  /-- receive again and again, so many seconds apart -/
  | watch (transport : Option String) (interval : Nat)
  | transports
  | migrate (folder : Option String)
  deriving DecidableEq, Repr

/-- The seconds between two passes of a watch, unless others are named. -/
def defaultInterval : Nat := 60

namespace Command

/-- The command to receive, once or again and again at least a second apart. -/
def receiving (g : Given) : Command :=
  if g.has "watch" then
    let interval := (g.get? "interval").bind fun v => Text.unsigned? maxLongWord v.toList
    .watch (g.get? "transport") (max 1 (interval.getD defaultInterval))
  else .receive (g.get? "transport")

/-- The command with this name and these options. -/
def ofLine? (name : String) (g : Given) : Option Command :=
  match name with
  | "send" => some (.send ⟨g.get? "to", g.get? "type", g.get? "payload", g.get? "priority",
      g.get? "convoy", g.get? "from", g.get? "transport"⟩)
  | "check" => some (.check (g.has "unread-only") (g.has "json"))
  | "read" => some (.read ((g.get? idRule.name).getD "") (g.has "json"))
  | "archive" => some (.archive ((g.get? idRule.name).getD ""))
  | "prune" => some (.prune (g.has "force")
      ((g.get? "older-than-days").bind fun v => days? v.toList))
  | "status" => some .status
  | "register" =>
    some (.register ⟨g.get? "id", g.get? "role", g.get? "branch", g.get? "worktree"⟩)
  | "deregister" => some (.deregister (g.get? "id"))
  | "agents" => some (.agents (g.has "active-only") (g.has "json"))
  | "receive" => some (receiving g)
  | "transport-status" => some .transports
  | "migrate" => some (.migrate (g.get? "from"))
  | _ => none

end Command

/-- A command and the agent as whom to act. -/
structure Invocation where
  agent : Option String
  command : Command
  deriving DecidableEq, Repr

/-- The command of a command line. -/
def Invocation.ofWords (words : List String) : Except UsageFault Invocation := do
  let line ← readLine words
  match Command.ofLine? line.command line.options with
  | some command => return ⟨line.agent, command⟩
  | none => throw .unknownCommand

end Mailroom
