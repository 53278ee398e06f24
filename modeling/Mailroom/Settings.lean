/-
Settings and where they come from.

Settings are read from the file `settings.json` in the home folder, if there is one;
environment variables that are not blank then replace single settings. A field that
is given nowhere has its default.

* `Settings` — the settings, with `Settings.ofValue` and `Settings.toValue`;
* `Settings.overlay` — the settings with those of the environment over them;
* `Settings.check` — whether the settings can be used;
* `Config` — a home folder and its settings, with the paths that follow from them;
* `Config.load` — the configuration of a home folder.
-/
import Mailroom.Envelope
import Mailroom.Error
import Mailroom.Json.Reader
import Mailroom.Json.Record
import Mailroom.Names
import Mailroom.Surroundings

namespace Mailroom

/-! ### The settings -/

/-- Settings for messages over SimpleX. -/
structure SimplexOptions where
  program : String
  group : Option String
  contact : Option String
  spoolFolder : Option String
  deriving DecidableEq, Repr

/-- Settings for messages over Matrix. -/
structure MatrixOptions where
  room : Option String
  credentialsFile : Option String
  cursorFile : Option String
  deriving DecidableEq, Repr

/-- All settings. -/
structure Settings where
  agentId : Option String
  transport : String
  pruneDays : Nat
  memoryCommand : Option String
  legacyFolder : Option String
  simplex : SimplexOptions
  matrix : MatrixOptions
  deriving DecidableEq, Repr

/-- The settings for SimpleX where none are given. -/
def SimplexOptions.default : SimplexOptions := ⟨"simplex-chat", none, none, none⟩

/-- The settings for Matrix where none are given. -/
def MatrixOptions.default : MatrixOptions := ⟨none, none, none⟩

/-- The settings where none are given. -/
def Settings.default : Settings :=
  ⟨none, Selector.here.name, 7, none, none, .default, .default⟩

/-! ### The settings as a record -/

open Json

/-- The settings for SimpleX that a value describes. -/
def SimplexOptions.ofValue (v : Value) : Except Problem SimplexOptions := do
  let r ← Record.ofValue "SimplexSettings" ["binary", "group", "contact", "spool_dir"] v
  return {
    program := ← r.withDefault "binary" SimplexOptions.default.program asText
    group := ← r.omittable "group" asText
    contact := ← r.omittable "contact" asText
    spoolFolder := ← r.omittable "spool_dir" asText }

/-- The settings for Matrix that a value describes. -/
def MatrixOptions.ofValue (v : Value) : Except Problem MatrixOptions := do
  let r ← Record.ofValue "MatrixSettings" ["room_id", "credentials_file", "cursor_file"] v
  return {
    room := ← r.omittable "room_id" asText
    credentialsFile := ← r.omittable "credentials_file" asText
    cursorFile := ← r.omittable "cursor_file" asText }

/-- The settings that a value describes. -/
def Settings.ofValue (v : Value) : Except Problem Settings := do
  let r ← Record.ofValue "Settings"
    ["agent_id", "transport", "prune_days", "memory_command", "legacy_dir", "simplex", "matrix"] v
  return {
    agentId := ← r.omittable "agent_id" asText
    transport := ← r.withDefault "transport" Settings.default.transport asText
    pruneDays := ← r.withDefault "prune_days" Settings.default.pruneDays asWord
    memoryCommand := ← r.omittable "memory_command" asText
    legacyFolder := ← r.omittable "legacy_dir" asText
    simplex := ← r.withDefault "simplex" .default SimplexOptions.ofValue
    matrix := ← r.withDefault "matrix" .default MatrixOptions.ofValue }

/-- The record of settings. -/
def Settings.toValue (s : Settings) : Value :=
  .object [("agent_id", .ofText? s.agentId), ("transport", .text s.transport),
    ("prune_days", .count s.pruneDays), ("memory_command", .ofText? s.memoryCommand),
    ("legacy_dir", .ofText? s.legacyFolder),
    ("simplex", .object [("binary", .text s.simplex.program), ("group", .ofText? s.simplex.group),
      ("contact", .ofText? s.simplex.contact), ("spool_dir", .ofText? s.simplex.spoolFolder)]),
    ("matrix", .object [("room_id", .ofText? s.matrix.room),
      ("credentials_file", .ofText? s.matrix.credentialsFile),
      ("cursor_file", .ofText? s.matrix.cursorFile)])]

/-! ### The environment -/

namespace Settings

/-- The settings with the variables that are not blank over them. The number of days
has to be one. -/
def overlay (s : Settings) (lookup : String → Option String) : Except ConfigFault Settings := do
  let get (name : String) := Text.nonBlank? (lookup name)
  let pruneDays ← match get "AGENT_MAIL_PRUNE_DAYS" with
    | none => .ok s.pruneDays
    | some text =>
      match Text.unsigned? Text.maxWord text.toList with
      | some n => .ok n
      | none => .error (.badDays text)
  return {
    agentId := (get "AGENT_MAIL_AGENT_ID").or s.agentId
    transport := (get "AGENT_MAIL_TRANSPORT").getD s.transport
    pruneDays
    memoryCommand := (get "AGENT_MAIL_MEMORY_CMD").or s.memoryCommand
    legacyFolder := s.legacyFolder
    simplex := {
      program := (get "AGENT_MAIL_SIMPLEX_BIN").getD s.simplex.program
      group := (get "AGENT_MAIL_SIMPLEX_GROUP").or s.simplex.group
      contact := (get "AGENT_MAIL_SIMPLEX_CONTACT").or s.simplex.contact
      spoolFolder := s.simplex.spoolFolder }
    matrix := {
      room := (get "AGENT_MAIL_MATRIX_ROOM").or s.matrix.room
      credentialsFile := (get "AGENT_MAIL_MATRIX_CREDENTIALS").or s.matrix.credentialsFile
      cursorFile := s.matrix.cursorFile } }

/-- The transports that are meant where none are named. -/
def selector (s : Settings) : Except ConfigFault Selector :=
  match Selector.ofName? s.transport with
  | some x => .ok x
  | none => .error (.unknownTransport s.transport)

/-- Whether the settings can be used: a known transport, at least one day, and an agent
id that can travel. -/
def check (s : Settings) : Except ConfigFault Unit := do
  let _ ← s.selector
  if s.pruneDays = 0 then throw .zeroDays
  match s.agentId with
  | none => return ()
  | some id => if !isWireSafe id then throw (.unsafeAgentId id)

end Settings

/-! ### Configurations -/

/-- A home folder and its settings. -/
structure Config where
  home : String
  settings : Settings
  deriving DecidableEq, Repr

/-- The home folder: the one that is named, or a hidden folder in the user's own. -/
def homeFolder (named userHome : Option String) : Except ConfigFault String :=
  match Text.nonBlank? named, userHome.filter (!·.isEmpty) with
  | some folder, _ => .ok folder
  | none, some home => .ok (PathText.join home ".agent-mail")
  | none, none => .error .noHome

namespace Config

/-- The settings in the text of the settings file. -/
def readSettings (content : String) : Except Error Settings :=
  match Value.parse content with
  | .error e => .error (.json e)
  | .ok v =>
    match Settings.ofValue v with
    | .error p => .error (.json ⟨p, none⟩)
    | .ok s => .ok s

/-- The configuration of a home folder. -/
def load (home : String) (w : Surroundings) : Except Error Config := do
  let path := PathText.join home "settings.json"
  let stored ←
    if w.isThere path then
      match w.readText path with
      | .error e => .error (.file e)
      | .ok content => readSettings content
    else .ok .default
  let settings ← (stored.overlay w.environmentValue?).mapError Error.config
  settings.check.mapError Error.config
  return ⟨home, settings⟩

/-- The path of something in the home folder, unless the settings name another. -/
def pathOr (c : Config) (named : Option String) (name : String) : String :=
  named.getD (PathText.join c.home name)

/-- The file of the store. -/
def storeFile (c : Config) : String := c.pathOr none "mailbox.db"

/-- The folder of the log. -/
def logFolder (c : Config) : String := c.pathOr none "logs"

/-- The spool of SimpleX. -/
def spoolFolder (c : Config) : String := c.pathOr c.settings.simplex.spoolFolder "simplex-spool"

/-- The file with the credentials for Matrix. -/
def credentialsFile (c : Config) : String :=
  c.pathOr c.settings.matrix.credentialsFile "matrix-credentials.json"

/-- The file with the position in the Matrix room. -/
def cursorFile (c : Config) : String := c.pathOr c.settings.matrix.cursorFile "matrix-cursor"

/-- The folder of the legacy mailbox. -/
def legacyFolder (c : Config) : String := c.pathOr c.settings.legacyFolder "legacy"

end Config

end Mailroom
