/-
Carrying out commands.

A command is carried out on the store in the home folder, as the agent that is named
on the command line or in the settings, or that the surroundings suggest.

* `Command.apply` — the effect of a command on a store that is open;
* `Invocation.perform` — the whole of it, with opening and keeping the store;
* `Performance` — what is printed, what went wrong, and how the surroundings are left.

What has been printed before something goes wrong stays printed, and what has been
stored stays stored.
-/
import Mailroom.CommandLine.Command
import Mailroom.CommandLine.Listing
import Mailroom.Mailbox.Configured
import Mailroom.Memory
import Mailroom.Store.Opening

namespace Mailroom

/-- What a command leaves: lines to print, whether something went wrong, the store and
the surroundings. -/
structure Effect where
  lines : List String
  result : Except Error Unit
  store : Store
  world : Surroundings

namespace Effect

/-- The effect of a step that prints its result. -/
def ofStep {α : Type} (print : α → List String) :
    Except Error α × Store × Surroundings → Effect
  | (.ok x, s, w) => ⟨print x, .ok (), s, w⟩
  | (.error e, s, w) => ⟨[], .error e, s, w⟩

/-- The effect of a step on the store alone. -/
def ofStoreStep {α : Type} (print : α → List String) (w : Surroundings)
    (step : Except Error α × Store) : Effect :=
  ofStep print (step.1, step.2, w)

/-- The effect of a look at the store. -/
def ofLook {α : Type} (print : α → List String) (s : Store) (w : Surroundings)
    (result : Except Error α) : Effect :=
  ofStep print (result, s, w)

end Effect

/-- The lines about the spool, if there is one. -/
def spoolListing (spool : String) (w : Surroundings) : List String :=
  match w.isFolder spool, w.children spool with
  | true, .ok entries =>
    let pending := entries.countP fun (_, node) =>
      match node with
      | .file _ => true
      | .folder => false
    let consumed := match w.children (PathText.join spool processedName) with
      | .ok entries => entries.length
      | .error _ => 0
    ["", "SimpleX spool: " ++ toString pending ++ " pending file(s) (" ++ toString consumed ++
      " consumed into " ++ processedName ++ "/)"]
  | _, _ => []

namespace Command

/-- Shows what pruning would do. -/
def showPruning (b : Mailbox Surroundings) (days : Nat) (s : Store) (w : Surroundings) : Effect :=
  .ofLook (fun report => report.listing (b.bytes s)) s w (s.pruneReport days w.clock)

/-- Prunes. -/
def doPruning (c : Config) (b : Mailbox Surroundings) (days : Nat) (s : Store)
    (w : Surroundings) : Effect :=
  match s.prune (recorderFor c.settings.memoryCommand) days w.clock w with
  | (.error e, s, w) => ⟨[], .error e, s, w⟩
  | (.ok outcome, after, w) =>
    ⟨outcome.listing (b.bytes s) (b.bytes after), .ok (), after, w⟩

/-- Shows what pruning would do, and prunes if that is wanted. -/
def pruning (c : Config) (b : Mailbox Surroundings) (force : Bool) (days : Nat) (s : Store)
    (w : Surroundings) : Effect :=
  let shown := showPruning b days s w
  match shown.result, force with
  | .error _, _ => shown
  | .ok (), false => { shown with lines := shown.lines ++ ["", "Run with --force to prune."] }
  | .ok (), true =>
    let done := doPruning c b days s w
    { done with lines := shown.lines ++ done.lines }

/-- The effect of a command on a store that is open. A watch makes one pass. -/
def apply (command : Command) (c : Config) (b : Mailbox Surroundings) (s : Store)
    (w : Surroundings) : Effect :=
  match command with
  | send draft =>
    .ofStep Sent.listing (b.send draft w.now w.nextIds s (w.draw (s.roster.length + 1)))
  | check unreadOnly json =>
    .ofLook (fun x => if json then [x.toValue.pretty] else x.listing) s w
      (b.check none unreadOnly s)
  | read id json =>
    .ofStoreStep (fun m => if json then [m.toValue.pretty] else m.listing) w (s.read id w.now)
  | archive id => .ofStoreStep (fun m => ["Archived " ++ m.id]) w (s.archive id w.now)
  | prune force days => pruning c b force (days.getD c.settings.pruneDays) s w
  | status => .ofLook (fun x => x.listing b.file (b.bytes s) b.selector) s w (b.status s)
  | register r => .ofStoreStep (fun a => ["Registered:", a.line]) w (b.register r w.now s)
  | deregister id => .ofStoreStep (fun a => ["Deregistered " ++ a.id]) w (b.deregister id w.now s)
  | agents activeOnly json =>
    .ofLook (fun x => if json then [(Json.Value.list (x.map Agent.toValue)).pretty]
      else agentListing x) s w ((s.agents activeOnly).mapError .storage)
  | receive transport => .ofStep Receipt.listing (b.receive transport w.nowAfter s w)
  | watch transport _ => .ofStep Receipt.watchListing (b.receive transport w.nowAfter s w)
  | transports =>
    ⟨["Default transport: " ++ b.selector.name, "", "Transports:"] ++
      (b.registry.transports.map fun t => t.line w) ++ spoolListing c.spoolFolder w, .ok (), s, w⟩
  | migrate folder =>
    let folder := folder.getD c.legacyFolder
    .ofStoreStep (fun x => [x.line folder]) w (s.takeOver w folder)

/-- The seconds until a command is to be carried out again, if it is. -/
def pause? : Command → Option Nat
  | watch _ interval => some interval
  | _ => none

end Command

/-- What carrying out a command comes to. -/
structure Performance where
  output : String
  result : Except Error Unit
  world : Surroundings

namespace Invocation

/-- Carries out a command as an agent, on the store in the home folder. -/
def performAs (i : Invocation) (c : Config) (identity : Identity) (w : Surroundings) :
    Except Error Performance := do
  let (s, w) ← w.openStore c.storeFile
  let b ← (c.mailbox identity).mapError .config
  let effect := i.command.apply c b s w
  return ⟨report effect.lines, effect.result, ← effect.world.keepStore c.storeFile effect.store⟩

/-- Carries out a command. -/
def perform (i : Invocation) (c : Config) (w : Surroundings) : Performance :=
  let (identity, w) := Identity.resolve (i.agent.or c.settings.agentId) w
  match i.performAs c identity w with
  | .ok done => done
  | .error e => ⟨"", .error e, w⟩

end Invocation

end Mailroom
