/-
Receiving.

A transport is polled by fetching what is new, storing every envelope that is for the
agent and not known yet, and only then committing the fetch. So an envelope may be
fetched twice, but none is passed over; the second time its id is known.

* `ingestAll` — stores the envelopes that are for an agent;
* `poll`, `pollAll` — one transport, and several, each on its own;
* `Mailbox.receive` — polls the transports that are meant;
* `Mailbox.watch` — receives again and again.

A poll that fails is noted as such even if it had stored something before.
-/
import Mailroom.Mailbox.Basic

namespace Mailroom

/-- What came of polling a transport. -/
inductive PollResult where
  /-- there was nothing to fetch from -/
  | skipped
  | polled (fetched ingested : Nat)
  | failed (reason : String)
  deriving DecidableEq, Repr

/-- The messages that a poll added. -/
def PollResult.ingested : PollResult → Nat
  | polled _ n => n
  | _ => 0

/-- What came of polling each transport. -/
structure Receipt where
  transports : List (String × PollResult)
  deriving DecidableEq, Repr

/-- The messages that all successful polls added. -/
def Receipt.ingested (r : Receipt) : Nat :=
  (r.transports.map fun (_, x) => x.ingested).foldr (· + ·) 0

/-- The message of an envelope that arrived at some time. -/
def Envelope.arrived (e : Envelope) (time : String) : Message :=
  ⟨e.id, e.sender, e.recipient, e.type, e.priority, e.convoy, e.payload, .unread, time, none, none⟩

/-- Stores the envelopes that are for an agent and not known yet, and counts them. -/
def ingestAll (agent time : String) : List Envelope → Store → Store × Nat
  | [], s => (s, 0)
  | e :: es, s =>
    if e.isFor agent then
      let (s, added) := s.ingest (e.arrived time)
      let (s, n) := ingestAll agent time es s
      (s, n + added.toNat)
    else ingestAll agent time es s

variable {σ : Type}

/-- Fetches, stores and commits. -/
def poll (agent : String) (t : Transport σ) (time : String) (s : Store) (w : σ) :
    PollResult × Store × σ :=
  match t.fetch w with
  | (.error e, w) => (.failed e.message, s, w)
  | (.ok fetched, w) =>
    let (s, ingested) := ingestAll agent time fetched.envelopes s
    match t.commit fetched.checkpoint w with
    | (.error e, w) => (.failed e.message, s, w)
    | (.ok (), w) => (.polled fetched.envelopes.length ingested, s, w)

/-- Polls a transport if there is anything to fetch from. -/
def visit (agent : String) (t : Transport σ) (time : String) (s : Store) (w : σ) :
    PollResult × Store × σ :=
  if t.canReceive w then poll agent t time s w else (.skipped, s, w)

/-- Polls several transports, one after another; `times` gives the time of each. -/
def pollAll (agent : String) (times : Nat → String) :
    List (Transport σ) → Store → σ → List (String × PollResult) × Store × σ
  | [], s, w => ([], s, w)
  | t :: ts, s, w =>
    let (result, s, w) := visit agent t (times 0) s w
    let (results, s, w) := pollAll agent (fun i => times (i + 1)) ts s w
    ((t.name, result) :: results, s, w)

/-- One pass of a watch: what happens around it before, and the times of its polls. -/
structure Pass (σ : Type) where
  before : σ → σ
  times : Nat → String

namespace Mailbox

/-- Stores one envelope, and says whether it was not known yet. -/
def ingest (e : Envelope) (time : String) (s : Store) : Store × Bool := s.ingest (e.arrived time)

/-- The transports that a text selects for receiving: all of them unless it names some. -/
def receiveSelector (selector : Option String) : Except InputFault Selector :=
  match Text.nonBlank? selector with
  | some text => Selector.parse text
  | none => .ok .all

/-- Polls the transports that are meant. -/
def receive (b : Mailbox σ) (selector : Option String) (times : Nat → String) (s : Store) (w : σ) :
    Except Error Receipt × Store × σ :=
  match receiveSelector selector with
  | .error e => (.error (.input e), s, w)
  | .ok x =>
    let (results, s, w) := pollAll b.identity.agentId times (b.registry.resolve x) s w
    (.ok ⟨results⟩, s, w)

/-- Receives in several passes, up to the first that is refused. -/
def watch (b : Mailbox σ) (selector : Option String) :
    List (Pass σ) → Store → σ → List Receipt × Except Error Unit × Store × σ
  | [], s, w => ([], .ok (), s, w)
  | pass :: rest, s, w =>
    match b.receive selector pass.times s (pass.before w) with
    | (.error e, s, w) => ([], .error e, s, w)
    | (.ok receipt, s, w) =>
      let (receipts, result, s, w) := b.watch selector rest s w
      (receipt :: receipts, result, s, w)

end Mailbox

end Mailroom
