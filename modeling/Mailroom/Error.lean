/-
What can go wrong, and how it is worded.

Each kind of cause is a type of its own: refused input, refused settings, the store,
a transport. `Error` joins them, and `Error.message` is the text that a user sees.

* `InputFault`, `StorageFault`, `ConfigFault`, `TransportFault` — the causes;
* `Error` — any of them, or a thing that is missing.
-/
import Mailroom.Files.Fault
import Mailroom.Files.NamePattern
import Mailroom.Json.Fault
import Mailroom.Time.Rfc3339

namespace Mailroom

/-! ### Refused input -/

/-- Why an input is refused. -/
inductive InputFault where
  | unknownMessageType (text : String)
  | unknownPriority (text : String)
  | unknownMessageStatus (text : String)
  | unknownAgentStatus (text : String)
  | unknownTransport (text : String)
  /-- an option that has to be given -/
  | missingOption (name : String)
  /-- a field that cannot travel as it is -/
  | unsafeField (name : String)
  | badAgentId (id : String)
  /-- a legacy record without its header -/
  | noHeader
  | noRow
  | openHeader
  | fieldCount (found : Nat)
  | emptyField
  | badTimestamp (text : String) (fault : Time.Rfc3339.Fault)
  deriving DecidableEq, Repr

/-- The wording of refused input. -/
def InputFault.message : InputFault → String
  | unknownMessageType s => "invalid message type '" ++ s ++ "' (expected one of: " ++
      "task_dispatch, status_report, discovery, request, broadcast)"
  | unknownPriority s => "invalid priority '" ++ s ++ "' (expected high, normal or low)"
  | unknownMessageStatus s => "invalid message status '" ++ s ++ "'"
  | unknownAgentStatus s => "invalid agent status '" ++ s ++ "'"
  | unknownTransport s => "invalid transport '" ++ s ++
      "' (expected local, simplex, matrix or all)"
  | missingOption name => "--" ++ name ++ " is required"
  | unsafeField name => name ++ " must not contain '|' or line breaks"
  | badAgentId id => "invalid agent id '" ++ id ++ "'"
  | noHeader => "missing TOON header"
  | noRow => "missing TOON row"
  | openHeader => "unterminated TOON header"
  | fieldCount n => "expected 8 fields, got " ++ toString n
  | emptyField => "empty id, from or to"
  | badTimestamp s fault => "bad timestamp '" ++ s ++ "': " ++ fault.message

/-! ### The store -/

/-- Why the store refuses. -/
inductive StorageFault where
  /-- an id that is stored already -/
  | idTaken
  | notDatabase
  | cannotOpen (path : String)
  /-- a stored text that stands for no value; the column counts from 0 -/
  | badColumn (index : Nat) (fault : InputFault)
  deriving DecidableEq, Repr

/-- The wording of a refusal of the store. -/
def StorageFault.message : StorageFault → String
  | idTaken => "UNIQUE constraint failed: messages.id"
  | notDatabase => "file is not a database"
  | cannotOpen path => "unable to open database file: " ++ path
  | badColumn i fault => "Conversion error from type Text at index: " ++ toString i ++
      ", Invalid input: " ++ fault.message

/-! ### Settings -/

/-- Why the settings are refused. -/
inductive ConfigFault where
  | noHome
  | badDays (text : String)
  | unknownTransport (text : String)
  | zeroDays
  | unsafeAgentId (id : String)
  deriving DecidableEq, Repr

/-- The wording of refused settings. -/
def ConfigFault.message : ConfigFault → String
  | noHome => "Could not determine home directory"
  | badDays s => "AGENT_MAIL_PRUNE_DAYS must be a number of days, got '" ++ s ++ "'"
  | unknownTransport s => "unknown transport '" ++ s ++ "'"
  | zeroDays => "prune_days must be at least 1"
  | unsafeAgentId id => "agent id '" ++ id ++ "' contains '|' or a line break"

/-! ### Transports -/

/-- Why a transport fails. The texts come from outside. -/
inductive TransportFault where
  | notAvailable (text : String)
  | notConfigured (text : String)
  | refused (text : String)
  | file (text : String)
  | network (text : String)
  | unreadable (text : String)
  | timeout
  deriving DecidableEq, Repr

/-- The wording of a failure of a transport. -/
def TransportFault.message : TransportFault → String
  | notAvailable s => "Transport not available: " ++ s
  | notConfigured s => "Transport not configured: " ++ s
  | refused s => "API error: " ++ s
  | file s => "IO error: " ++ s
  | network s => "HTTP error: " ++ s
  | unreadable s => "Parse error: " ++ s
  | timeout => "Timeout"

/-! ### All of them -/

/-- A thing that is not there. -/
inductive Absent where
  | message (id : String)
  | agent (id : String)
  | legacyFolder (path : String)
  deriving DecidableEq, Repr

/-- How an absent thing is named. -/
def Absent.render : Absent → String
  | .message id => "message " ++ id
  | .agent id => "agent " ++ id
  | .legacyFolder path => "legacy directory " ++ path

/-- Anything that can go wrong. -/
inductive Error where
  | config (fault : ConfigFault)
  | file (fault : FileFault)
  | json (fault : Json.Fault)
  | storage (fault : StorageFault)
  | input (fault : InputFault)
  | notFound (what : Absent)
  | alreadyArchived (id : String)
  | transport (fault : TransportFault)
  /-- the memory command refused, in its own words -/
  | memory (text : String)
  | pattern (fault : NamePattern.Fault)
  /-- an instant beyond the calendar -/
  | beyondCalendar
  deriving DecidableEq, Repr

/-- The text that a user sees. -/
def Error.message : Error → String
  | config fault => "Configuration error: " ++ fault.message
  | file fault => "IO error: " ++ fault.message
  | json fault => "JSON error: " ++ fault.message
  | storage fault => "Storage error: " ++ fault.message
  | input fault => "Invalid input: " ++ fault.message
  | notFound what => "Not found: " ++ what.render
  | alreadyArchived id => "Message already archived: " ++ id
  | transport fault => "Transport error: " ++ fault.message
  | memory text => text
  | pattern fault => fault.message
  | beyondCalendar => "the cutoff lies beyond the calendar"

end Mailroom
