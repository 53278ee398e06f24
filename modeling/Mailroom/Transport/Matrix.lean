/-
The transport over a Matrix room.

Lines are posted as plain text into one room of a homeserver and read back by paging
through the room. The address of the homeserver and an access token stand in a file
of their own; the position up to which the room has been read stands in another.

* `roomUrl` — the address of something in a room;
* `Page` — one page of a room, with `Page.ofValue`, `Page.envelopes` and
  `Page.nextCursor`;
* `MatrixSettings` — the room and the two files;
* `matrix` — the transport.

Without a position the latest fifty events are asked for, backwards; with one, up to
a hundred events after it. Envelopes come out oldest first in both cases.
-/
import Mailroom.Json.TextRecord
import Mailroom.Surroundings
import Mailroom.Transport.Basic
import Mailroom.Url.Parser

namespace Mailroom

/-! ### Addresses -/

/-- The address of something in a room, with every name as one path segment. -/
def roomUrl (homeserver room : String) (tail : List String) : Except TransportFault Url :=
  match Url.parse homeserver with
  | .error e => .error (.unreadable ("homeserver url '" ++ homeserver ++ "': " ++ e.message))
  | .ok u =>
    match u.push (["_matrix", "client", "v3", "rooms", room] ++ tail) with
    | some u => .ok u
    | none => .error (.unreadable ("homeserver url '" ++ homeserver ++ "' cannot be a base"))

/-! ### Pages -/

/-- Something that happened in a room. -/
structure RoomEvent where
  kind : String
  content : Json.Value

/-- A page of a room: where it begins and ends, and what happened in between. -/
structure Page where
  start : Option String
  finish : Option String
  events : List RoomEvent

open Json in
/-- The event that a value describes. -/
def RoomEvent.ofValue (v : Value) : Except Problem RoomEvent := do
  let r ← Record.ofValue "RoomEvent" ["type", "content"] v
  return { kind := ← r.required "type" asText
           content := ← r.withDefault "content" .null .ok }

open Json in
/-- A list of events. -/
def eventsOfValue : Value → Except Problem (List RoomEvent)
  | .list items => items.mapM RoomEvent.ofValue
  | v => .error (.wrongType v.kind "a sequence")

open Json in
/-- The page that a value describes. -/
def Page.ofValue (v : Value) : Except Problem Page := do
  let r ← Record.ofValue "MessagesPage" ["start", "end", "chunk"] v
  return { start := ← r.optional "start" asText
           finish := ← r.optional "end" asText
           events := ← r.withDefault "chunk" [] eventsOfValue }

/-- The body of a line posted into a room. -/
def lineContent (line : String) : Json.Value :=
  .object [("msgtype", .text "m.text"), ("body", .text line)]

/-- The plain text that an event posts. -/
def RoomEvent.text? (e : RoomEvent) : Option String :=
  if e.kind = "m.room.message" ∧
      (e.content.field? "msgtype").bind Json.Value.text? = some "m.text" then
    (e.content.field? "body").bind Json.Value.text?
  else none

/-- The envelope that an event posts. -/
def RoomEvent.envelope? (e : RoomEvent) : Option Envelope :=
  (e.text?.filter fun s => looksLikeEnvelope s.toList).bind Envelope.decode?

/-- The envelopes of a page, oldest first. -/
def Page.envelopes (p : Page) (backwards : Bool) : List Envelope :=
  let found := p.events.filterMap RoomEvent.envelope?
  if backwards then found.reverse else found

/-- The position after a page: its end if there was a position before, else its start;
the position before if the page names none. -/
def Page.nextCursor (p : Page) (previous : Option String) : Option String :=
  (if previous.isSome then p.finish else p.start).or previous

/-! ### Settings and files -/

/-- The room, and where the credentials and the position are kept. -/
structure MatrixSettings where
  room : Option String
  credentialsFile : String
  cursorFile : String
  deriving DecidableEq, Repr

/-- The homeserver and the token with which it lets us in. -/
structure Credentials where
  homeserver : String
  token : String
  deriving DecidableEq, Repr

/-- The record in which credentials are kept. -/
def Credentials.record : Json.TextRecord where
  title := "MatrixCredentials"
  fields := [["homeserver_url", "homeserverUrl", "homeserver"], ["access_token", "accessToken"]]

namespace MatrixSettings

/-- The credentials. -/
def credentials (s : MatrixSettings) (w : Surroundings) : Except TransportFault Credentials :=
  if !w.isFile s.credentialsFile then
    .error (.notAvailable ("credentials file " ++ s.credentialsFile ++ " missing"))
  else
    match w.readText s.credentialsFile with
    | .error e => .error (.file e.message)
    | .ok text =>
      match Credentials.record.parse text with
      | .error e => .error (.unreadable (s.credentialsFile ++ ": " ++ e.message))
      | .ok texts => .ok ⟨texts.getD 0 "", texts.getD 1 ""⟩

/-- The position up to which the room has been read. -/
def cursor (s : MatrixSettings) (w : Surroundings) : Option String :=
  match w.readText s.cursorFile with
  | .error _ => none
  | .ok text => Text.nonBlank? (some text)

/-- The address of something in the room. -/
def url (s : MatrixSettings) (c : Credentials) (tail : List String) : Except TransportFault Url :=
  match s.room with
  | none => .error (.notConfigured "no Matrix room id")
  | some room => roomUrl c.homeserver room tail

end MatrixSettings

/-! ### Exchanges -/

/-- The reason that goes with a status of HTTP. -/
def statusReason (status : Nat) : String :=
  match status with
  | 100 => "Continue"
  | 101 => "Switching Protocols"
  | 200 => "OK"
  | 201 => "Created"
  | 202 => "Accepted"
  | 204 => "No Content"
  | 301 => "Moved Permanently"
  | 302 => "Found"
  | 304 => "Not Modified"
  | 307 => "Temporary Redirect"
  | 308 => "Permanent Redirect"
  | 400 => "Bad Request"
  | 401 => "Unauthorized"
  | 402 => "Payment Required"
  | 403 => "Forbidden"
  | 404 => "Not Found"
  | 405 => "Method Not Allowed"
  | 406 => "Not Acceptable"
  | 408 => "Request Timeout"
  | 409 => "Conflict"
  | 410 => "Gone"
  | 411 => "Length Required"
  | 412 => "Precondition Failed"
  | 413 => "Payload Too Large"
  | 414 => "URI Too Long"
  | 415 => "Unsupported Media Type"
  | 418 => "I'm a teapot"
  | 422 => "Unprocessable Entity"
  | 429 => "Too Many Requests"
  | 500 => "Internal Server Error"
  | 501 => "Not Implemented"
  | 502 => "Bad Gateway"
  | 503 => "Service Unavailable"
  | 504 => "Gateway Timeout"
  | _ => "<unknown status code>"

/-- Whether a token can be sent in a header. -/
def isHeaderSafe (token : String) : Bool :=
  (Text.encodeUtf8 token).all fun b => (32 ≤ b.toNat && b.toNat != 127) || b.toNat == 9

/-- Sends a request with the token and gives the body of a successful answer. The
user's name and password are not part of the address that is asked for. -/
def exchange (method : String) (u : Url) (token : String) (body : Option Json.Value)
    (w : Surroundings) : Except TransportFault (List UInt8) × Surroundings :=
  let u := u.withoutUser
  if u.scheme ≠ "http" ∧ u.scheme ≠ "https" then
    (.error (.network ("builder error for url (" ++ u.render ++ ")")), w)
  else if !isHeaderSafe token then (.error (.network "builder error"), w)
  else
    match w.request ⟨method, u.render, "Bearer " ++ token, body⟩ with
    | (.nothing, w) => (.error (.network ("error sending request for url (" ++ u.render ++ ")")), w)
    | (.answer status data, w) =>
      if 200 ≤ status ∧ status < 300 then (.ok data, w)
      else
        (.error (.refused ("HTTP " ++ toString status ++ " " ++ statusReason status ++ ": " ++
          String.ofList (Text.decodeLossy data))), w)

/-- Posts a line into the room. -/
def matrixSend (s : MatrixSettings) (line : String) (w : Surroundings) :
    Except TransportFault Unit × Surroundings :=
  match s.credentials w with
  | .error e => (.error e, w)
  | .ok c =>
    let transaction := Ulid.text w.clock.unixMillis w.seed
    let w := w.draw 1
    match s.url c ["send", "m.room.message", transaction] with
    | .error e => (.error e, w)
    | .ok u =>
      match exchange "PUT" u c.token (some (lineContent line)) w with
      | (.error e, w) => (.error e, w)
      | (.ok _, w) => (.ok (), w)

/-- The address of the page after a position, or of the latest page. -/
def pageUrl (u : Url) : Option String → Url
  | some position =>
    ((u.appendPair "dir" "f").appendPair "from" position).appendPair "limit" "100"
  | none => (u.appendPair "dir" "b").appendPair "limit" "50"

/-- The page that an answer holds. -/
def readPage (data : List UInt8) : Except TransportFault Page :=
  let refused : TransportFault := .network "error decoding response body"
  match Text.decode? data with
  | none => .error refused
  | some text =>
    match Json.Value.parse text with
    | .error _ => .error refused
    | .ok v =>
      match Page.ofValue v with
      | .error _ => .error refused
      | .ok p => .ok p

/-- What a page gives for a fetch from some position. -/
def Page.fetched (p : Page) (position : Option String) : Fetched :=
  ⟨p.envelopes position.isNone,
    match p.nextCursor position with
    | some token => .cursor token
    | none => .nowhere⟩

/-- Reads the next page of the room. -/
def matrixFetch (s : MatrixSettings) (w : Surroundings) :
    Except TransportFault Fetched × Surroundings :=
  let position := s.cursor w
  match s.credentials w with
  | .error e => (.error e, w)
  | .ok c =>
    match s.url c ["messages"] with
    | .error e => (.error e, w)
    | .ok u =>
      match exchange "GET" (pageUrl u position) c.token none w with
      | (.error e, w) => (.error e, w)
      | (.ok data, w) => ((readPage data).map (·.fetched position), w)

/-- Keeps a position. -/
def matrixCommit (s : MatrixSettings) (checkpoint : Checkpoint) (w : Surroundings) :
    Except TransportFault Unit × Surroundings :=
  match checkpoint with
  | .cursor token =>
    match w.makeParent s.cursorFile with
    | .error e => (.error (.file e.message), w)
    | .ok w =>
      match w.writeText s.cursorFile token with
      | .error e => (.error (.file e.message), w)
      | .ok w => (.ok (), w)
  | _ => (.ok (), w)

/-- The transport over a Matrix room. -/
def matrix (s : MatrixSettings) : Transport Surroundings where
  name := Selector.matrix.name
  isNetwork := true
  available w := s.room.isSome && w.isFile s.credentialsFile
  canReceive w := s.room.isSome && w.isFile s.credentialsFile
  describe _ := "room " ++ s.room.getD "(unset)" ++ "; credentials " ++ s.credentialsFile
  send := matrixSend s
  fetch := matrixFetch s
  commit := matrixCommit s

end Mailroom
