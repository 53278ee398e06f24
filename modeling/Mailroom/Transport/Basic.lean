/-
Transports: ways for envelope lines to other machines.

A transport acts on surroundings of any type. It can send a line, fetch the
envelopes that arrived since its last commit, and commit: a fetch comes with a
checkpoint, and committing the checkpoint makes the next fetch start after it.

* `Transport` — the operations;
* `Registry` — transports by name, each name at most once;
* `Registry.resolve` — the transports that a selector means;
* `Registry.relay` — one line through all of them, each tried on its own.
-/
import Mailroom.Envelope
import Mailroom.Names

namespace Mailroom

/-- How far a fetch got. -/
inductive Checkpoint where
  | nowhere
  /-- the files that were read -/
  | files (paths : List String)
  /-- the position after what was read -/
  | cursor (token : String)
  deriving DecidableEq, Repr

/-- What a fetch gives. -/
structure Fetched where
  envelopes : List Envelope
  checkpoint : Checkpoint
  deriving DecidableEq, Repr

/-- A fetch that finds nothing. -/
def Fetched.nothing : Fetched := ⟨[], .nowhere⟩

/-- A way for envelope lines, acting on surroundings `σ`. -/
structure Transport (σ : Type) where
  name : String
  /-- whether it leads to other machines -/
  isNetwork : Bool
  /-- whether it can send at present -/
  available : σ → Bool
  /-- whether there is anything to fetch from -/
  canReceive : σ → Bool
  /-- where it leads, for people -/
  describe : σ → String
  send : String → σ → Except TransportFault Unit × σ
  fetch : σ → Except TransportFault Fetched × σ
  commit : Checkpoint → σ → Except TransportFault Unit × σ

/-- The transport of messages that stay on this machine: the store itself. -/
def localTransport (σ : Type) : Transport σ where
  name := Selector.here.name
  isNetwork := false
  available _ := true
  canReceive _ := true
  describe _ := "shared SQLite mailbox"
  send _ w := (.ok (), w)
  fetch w := (.ok .nothing, w)
  commit _ w := (.ok (), w)

/-! ### Registries -/

/-- Transports in the order of their names. -/
structure Registry (σ : Type) where
  transports : List (Transport σ)

/-- A list in the order of names with one more transport, in place of one of its name. -/
def insertByName {σ : Type} (t : Transport σ) : List (Transport σ) → List (Transport σ)
  | [] => [t]
  | u :: us =>
    if t.name < u.name then t :: u :: us
    else if t.name = u.name then t :: us
    else u :: insertByName t us

namespace Registry

variable {σ : Type}

/-- No transports. -/
def empty : Registry σ := ⟨[]⟩

/-- The registry with one more transport, in place of the one of its name. -/
def register (r : Registry σ) (t : Transport σ) : Registry σ := ⟨insertByName t r.transports⟩

/-- The transport of this name. -/
def get? (r : Registry σ) (name : String) : Option (Transport σ) :=
  r.transports.find? (·.name == name)

/-- The transports that lead to other machines. -/
def network (r : Registry σ) : List (Transport σ) := r.transports.filter (·.isNetwork)

/-- The transports that a selector means. -/
def resolve (r : Registry σ) : Selector → List (Transport σ)
  | .here => []
  | .all => r.network
  | single => (r.get? single.name).toList

/-- The names of all transports. -/
def names (r : Registry σ) : List String := r.transports.map (·.name)

end Registry

/-! ### Relaying -/

/-- What became of a line at one transport. -/
structure Relay where
  transport : String
  failure : Option String
  deriving DecidableEq, Repr

namespace Transport

variable {σ : Type}

/-- Sends a line if the transport is available. -/
def relay (t : Transport σ) (line : String) (w : σ) : Relay × σ :=
  if t.available w then
    match t.send line w with
    | (.ok (), w) => (⟨t.name, none⟩, w)
    | (.error e, w) => (⟨t.name, some e.message⟩, w)
  else (⟨t.name, some (t.name ++ " transport not available")⟩, w)

end Transport

/-- Sends a line through several transports, one after another. -/
def relayAll {σ : Type} (line : String) : List (Transport σ) → σ → List Relay × σ
  | [], w => ([], w)
  | t :: ts, w =>
    let (outcome, w) := t.relay line w
    let (more, w) := relayAll line ts w
    (outcome :: more, w)

/-- Sends an envelope through the transports that a selector means. -/
def Registry.relay {σ : Type} (r : Registry σ) (selector : Selector) (e : Envelope) (w : σ) :
    List Relay × σ :=
  relayAll e.encode (r.resolve selector) w

end Mailroom
