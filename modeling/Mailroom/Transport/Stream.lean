/-
In-process channels as transports.

A channel serves the lines that came in from its offset on, and committing a cursor
sets the offset. The lines are its own, or those of a room that several channels
share; what is sent is noted, and said in the room if there is one. Each operation can
be made to fail.

* `StreamSettings` — how a channel behaves;
* `stream` — the transport.
-/
import Mailroom.Surroundings
import Mailroom.Text.Numeral
import Mailroom.Transport.Basic

namespace Mailroom

/-- How an in-process channel behaves. -/
structure StreamSettings where
  /-- the channel that it works on -/
  channel : String
  name : String
  isNetwork : Bool
  available : Bool
  canReceive : Bool
  room : Option String
  sendFault : Option TransportFault
  fetchFault : Option TransportFault
  commitFault : Option TransportFault

namespace StreamSettings

/-- The lines that a channel has to serve. -/
def lines (s : StreamSettings) (w : Surroundings) : List String :=
  match s.room with
  | some room => w.room room
  | none => (w.channel s.channel).inbound

/-- Lines that come in: they are said in the room if there is one. -/
def feed (s : StreamSettings) (lines : List String) (w : Surroundings) : Surroundings :=
  match s.room with
  | some room => lines.foldl (fun w line => w.say room line) w
  | none =>
    let c := w.channel s.channel
    w.setChannel s.channel { c with inbound := c.inbound ++ lines }

/-- Notes a line that was sent, and says it in the room. -/
def send (s : StreamSettings) (line : String) (w : Surroundings) : Surroundings :=
  let c := w.channel s.channel
  let w := w.setChannel s.channel { c with sent := c.sent ++ [line] }
  match s.room with
  | some room => w.say room line
  | none => w

/-- The envelopes among the lines from the offset on, and the end of the lines. -/
def fetch (s : StreamSettings) (w : Surroundings) : Fetched :=
  let lines := s.lines w
  ⟨(lines.drop (w.channel s.channel).offset).filterMap Envelope.decode?,
    .cursor (toString lines.length)⟩

/-- Sets the offset to a cursor. -/
def commit (s : StreamSettings) (checkpoint : Checkpoint) (w : Surroundings) : Surroundings :=
  match checkpoint with
  | .cursor token =>
    match Text.natural? token.toList with
    | some n => w.setChannel s.channel { w.channel s.channel with offset := n }
    | none => w
  | _ => w

end StreamSettings

/-- The result of an operation unless it was made to fail. -/
def orFault {α σ : Type} (fault : Option TransportFault) (result : α × σ) (w : σ) :
    Except TransportFault α × σ :=
  match fault with
  | some e => (.error e, w)
  | none => (.ok result.1, result.2)

/-- The transport of an in-process channel. -/
def stream (s : StreamSettings) : Transport Surroundings where
  name := s.name
  isNetwork := s.isNetwork
  available _ := s.available
  canReceive _ := s.canReceive
  describe _ := "fake " ++ s.name
  send line w := orFault s.sendFault ((), s.send line w) w
  fetch w := orFault s.fetchFault (s.fetch w, w) w
  commit checkpoint w := orFault s.commitFault ((), s.commit checkpoint w) w

end Mailroom
