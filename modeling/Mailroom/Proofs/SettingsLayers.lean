/-
Settings come in layers.

A single setting is what its environment variable says, unless that is blank or there is none; else
what the settings file gives for it; else its default. No other variable and no other part of the
file has an influence on it. Only what comes out of the layers is checked, so a variable can make
up for a bad value of the file.

* `Json.fieldOf`, `get?_of_ofValue` — what a value gives for a field of a record;
* `Setting`, `Setting.given`, `Setting.environmentName?`, `Setting.default` — settings and layers;
* `Setting.of_ofValue` — what the settings of a file are;
* `Setting.of_overlay` — what an environment makes of settings;
* `SettingsFile`, `Usable` — which files are accepted and which settings pass the check;
* `settings_come_in_layers` — when a configuration is loaded, and with which settings.
-/
import Mailroom.Proofs.CommandLine.AdmittedDays

namespace Mailroom

/-! ### Fields of records -/

namespace Json

/-- What a value gives for a field of a record: an object by its name, a list by its place. -/
def fieldOf (names : List String) (name : String) : Value → Option Value
  | .object fields => fields.lookup name
  | .list items => (names.idxOf? name).bind fun i => items[i]?
  | _ => none

theorem head?_valuesOf (name : String) (fields : List (String × Value)) :
    (valuesOf name fields).head? = fields.lookup name := by
  induction fields with
  | nil => rfl
  | cons field fields ih =>
    obtain ⟨k, v⟩ := field
    by_cases hk : k = name
    · have hhead : valuesOf name ((k, v) :: fields) = v :: valuesOf name fields :=
        List.filterMap_cons_some (if_pos hk)
      rw [hhead, List.lookup_cons, beq_iff_eq.2 hk.symm]
      rfl
    · have htail : valuesOf name ((k, v) :: fields) = valuesOf name fields :=
        List.filterMap_cons_none (if_neg hk)
      rw [htail, ih, List.lookup_cons, beq_false_of_ne (Ne.symm hk)]

/-- A record has found what the value gives for each of its fields. -/
theorem Record.get?_of_ofValue {title name : String} {names : List String} {v : Value} {r : Record}
    (h : Record.ofValue title names v = .ok r) (hname : name ∈ names) :
    r.get? name = fieldOf names name v := by
  obtain ⟨i, hi⟩ := Option.isSome_iff_exists.1 (List.isSome_idxOf?.2 hname)
  obtain ⟨hlt, hat, -⟩ := List.idxOf?_eq_some_iff.1 hi
  cases v with
  | object fields =>
    rw [Record.ofValue] at h
    obtain ⟨given, hgiven, h⟩ := bind_eq_ok.1 h
    obtain rfl := Except.ok.inj h
    have hall := mapM_eq_ok.1 hgiven
    have hlt' : i < given.length := hall.length_eq ▸ hlt
    have hfield := hall.get hlt hlt'
    rw [List.get_eq_getElem, List.get_eq_getElem, hat] at hfield
    -- a name that stands twice is refused, so what is found stands first
    have hfound : given[i] = (valuesOf name fields).head? := by
      split at hfield
      · rename_i hvalues
        rw [hvalues, ← Except.ok.inj hfield]
        rfl
      · rename_i v hvalues
        rw [hvalues, ← Except.ok.inj hfield]
        rfl
      · cases hfield
    rw [Record.get?, hi, fieldOf, ← head?_valuesOf, ← hfound]
    show (given[i]?).bind id = given[i]
    rw [List.getElem?_eq_getElem hlt', Option.bind_some, id]
  | list items =>
    rw [Record.ofValue] at h
    split at h
    · cases h
    · obtain rfl := Except.ok.inj h
      rw [Record.get?, hi, fieldOf, hi]
      show ((names.zipIdx.map fun x => items[x.2]?)[i]?).bind id = items[i]?
      rw [List.getElem?_map, List.getElem?_zipIdx, List.getElem?_eq_getElem hlt]
      simp only [Option.map_some, Option.bind_some, id, Nat.zero_add]
  | null => cases h
  | bool b => cases h
  | integer n => cases h
  | real literal => cases h
  | text s => cases h

/-! ### Values of fields -/

theorem asText_eq_ok_iff {v : Value} {s : String} : asText v = .ok s ↔ v = .text s := by
  cases v with
  | text t => rw [asText, Except.ok.injEq, Value.text.injEq]
  | _ => constructor <;> intro h <;> cases h

theorem eq_of_asWord {v : Value} {n : Nat} (h : asWord v = .ok n) : v = .count n := by
  cases v with
  | integer i =>
    rw [asWord] at h
    split at h
    · rename_i hbounds
      obtain rfl := Except.ok.inj h
      rw [Value.count, Int.toNat_of_nonneg hbounds.1]
    · cases h
  | _ => cases h

theorem eq_of_readOption {v : Value} {s : Option String}
    (h : Record.readOption asText v = .ok s) : v = .ofText? s := by
  by_cases hnull : v = .null
  · subst hnull
    obtain rfl := Except.ok.inj h
    rfl
  · have hsome : (asText v).map some = .ok s := by
      cases v <;> first | exact h | exact absurd rfl hnull
    cases hv : asText v with
    | error e =>
      rw [hv] at hsome
      cases hsome
    | ok t =>
      rw [hv] at hsome
      obtain rfl := Except.ok.inj hsome
      exact asText_eq_ok_iff.1 hv

section

variable {r : Record} {name : String}

theorem Record.withDefault_eq_ok_iff {α : Type} {default a : α} {read : Value → Except Problem α} :
    r.withDefault name default read = .ok a ↔
      (∃ v, r.get? name = some v ∧ read v = .ok a) ∨ r.get? name = none ∧ default = a := by
  rw [Record.withDefault]
  cases r.get? name with
  | none => simp only [Except.ok.injEq, reduceCtorEq, false_and, exists_false, false_or, true_and]
  | some v => simp only [Option.some.injEq, exists_eq_left', reduceCtorEq, false_and, or_false]

/-- A field with a default is what the record has for it, as far as it is written so. -/
theorem Record.written_of_withDefault {α : Type} {default a : α} {read : Value → Except Problem α}
    {write : α → Value} (hread : ∀ {v a}, read v = .ok a → v = write a)
    (h : r.withDefault name default read = .ok a) :
    write a = (r.get? name).getD (write default) := by
  rcases withDefault_eq_ok_iff.1 h with ⟨v, hv, ha⟩ | ⟨hnone, rfl⟩
  · rw [hv, Option.getD_some, hread ha]
  · rw [hnone, Option.getD_none]

/-- An optional text is what the record has for it. -/
theorem Record.ofText?_of_omittable {s : Option String} (h : r.omittable name asText = .ok s) :
    .ofText? s = (r.get? name).getD .null := by
  show Value.ofText? s = (r.get? name).getD (Value.ofText? none)
  exact written_of_withDefault eq_of_readOption h

end

end Json

open Json

/-! ### Single settings -/

/-- A single setting. -/
inductive Setting where
  | agentId
  | transport
  | pruneDays
  | memoryCommand
  | legacyFolder
  | simplexProgram
  | simplexGroup
  | simplexContact
  | simplexSpool
  | matrixRoom
  | matrixCredentials
  | matrixCursor
  deriving DecidableEq, Repr

namespace Setting

/-- The fields of a settings file. -/
def topNames : List String :=
  ["agent_id", "transport", "prune_days", "memory_command", "legacy_dir", "simplex", "matrix"]

/-- The fields of its section on SimpleX. -/
def simplexNames : List String := ["binary", "group", "contact", "spool_dir"]

/-- The fields of its section on Matrix. -/
def matrixNames : List String := ["room_id", "credentials_file", "cursor_file"]

/-- Where a settings file gives a setting: a field, after that of its section. -/
def place : Setting → List (List String × String)
  | agentId => [(topNames, "agent_id")]
  | transport => [(topNames, "transport")]
  | pruneDays => [(topNames, "prune_days")]
  | memoryCommand => [(topNames, "memory_command")]
  | legacyFolder => [(topNames, "legacy_dir")]
  | simplexProgram => [(topNames, "simplex"), (simplexNames, "binary")]
  | simplexGroup => [(topNames, "simplex"), (simplexNames, "group")]
  | simplexContact => [(topNames, "simplex"), (simplexNames, "contact")]
  | simplexSpool => [(topNames, "simplex"), (simplexNames, "spool_dir")]
  | matrixRoom => [(topNames, "matrix"), (matrixNames, "room_id")]
  | matrixCredentials => [(topNames, "matrix"), (matrixNames, "credentials_file")]
  | matrixCursor => [(topNames, "matrix"), (matrixNames, "cursor_file")]

/-- What a value gives at a place. -/
def lookUp : List (List String × String) → Value → Option Value
  | [], v => some v
  | (names, name) :: rest, v => (fieldOf names name v).bind (lookUp rest)

/-- What a document gives for a setting. -/
def given (x : Setting) (v : Value) : Option Value := lookUp x.place v

/-- The environment variable of a setting. -/
def environmentName? : Setting → Option String
  | agentId => some "AGENT_MAIL_AGENT_ID"
  | transport => some "AGENT_MAIL_TRANSPORT"
  | pruneDays => some "AGENT_MAIL_PRUNE_DAYS"
  | memoryCommand => some "AGENT_MAIL_MEMORY_CMD"
  | legacyFolder => none
  | simplexProgram => some "AGENT_MAIL_SIMPLEX_BIN"
  | simplexGroup => some "AGENT_MAIL_SIMPLEX_GROUP"
  | simplexContact => some "AGENT_MAIL_SIMPLEX_CONTACT"
  | simplexSpool => none
  | matrixRoom => some "AGENT_MAIL_MATRIX_ROOM"
  | matrixCredentials => some "AGENT_MAIL_MATRIX_CREDENTIALS"
  | matrixCursor => none

/-- What a setting is if nothing says otherwise. -/
def default : Setting → Value
  | transport => .text "local"
  | pruneDays => .count 7
  | simplexProgram => .text "simplex-chat"
  | _ => .null

/-- What the text of a variable means for its setting: a number of 32 bits, or that text. -/
def ofText? : Setting → String → Option Value
  | pruneDays, text => (Text.unsigned? Text.maxWord text.toList).map .count
  | _, text => some (.text text)

/-- What is said by an environment, or else by what lies below it. A blank variable says nothing. -/
def overlaid (x : Setting) (lookup : String → Option String) (below : Value) : Option Value :=
  match x.environmentName?.bind fun name => Text.nonBlank? (lookup name) with
  | some text => x.ofText? text
  | none => some below

/-- What the layers say: the environment, or else the file, or else the default. -/
def layered (x : Setting) (file : Option Value) (lookup : String → Option String) : Option Value :=
  x.overlaid lookup ((file.bind x.given).getD x.default)

/-- A setting in some settings. -/
def of (x : Setting) (s : Settings) : Value :=
  match x with
  | agentId => .ofText? s.agentId
  | transport => .text s.transport
  | pruneDays => .count s.pruneDays
  | memoryCommand => .ofText? s.memoryCommand
  | legacyFolder => .ofText? s.legacyFolder
  | simplexProgram => .text s.simplex.program
  | simplexGroup => .ofText? s.simplex.group
  | simplexContact => .ofText? s.simplex.contact
  | simplexSpool => .ofText? s.simplex.spoolFolder
  | matrixRoom => .ofText? s.matrix.room
  | matrixCredentials => .ofText? s.matrix.credentialsFile
  | matrixCursor => .ofText? s.matrix.cursorFile

/-- The record of some settings gives each of them. -/
theorem given_toValue (x : Setting) (s : Settings) : x.given s.toValue = some (x.of s) := by
  cases x <;> rfl

/-! ### The layers -/

section

variable {v : Value} {s s' : Settings} {lookup : String → Option String}

theorem lookUp_single {names : List String} {name : String} :
    lookUp [(names, name)] v = fieldOf names name v := Option.bind_fun_some _

theorem lookUp_section {names inner : List String} {name field : String} {sub : Option Value}
    (h : sub = fieldOf names name v) :
    lookUp [(names, name), (inner, field)] v = sub.bind (fieldOf inner field) := by
  rw [h, lookUp]
  exact congrArg (Option.bind _) (funext fun _ => lookUp_single)

/-- What a section of a file says on SimpleX, or what is said where there is none. -/
theorem fields_of_simplex {r : Record} {o : SimplexOptions}
    (h : r.withDefault "simplex" .default SimplexOptions.ofValue = .ok o) :
    .text o.program =
        ((r.get? "simplex").bind (fieldOf simplexNames "binary")).getD (.text "simplex-chat") ∧
      .ofText? o.group = ((r.get? "simplex").bind (fieldOf simplexNames "group")).getD .null ∧
      .ofText? o.contact = ((r.get? "simplex").bind (fieldOf simplexNames "contact")).getD .null ∧
      .ofText? o.spoolFolder =
        ((r.get? "simplex").bind (fieldOf simplexNames "spool_dir")).getD .null := by
  rcases Record.withDefault_eq_ok_iff.1 h with ⟨v, hv, ho⟩ | ⟨hnone, rfl⟩
  · simp only [SimplexOptions.ofValue, bind_eq_ok, pure_eq_ok] at ho
    obtain ⟨q, hq, program, hprogram, group, hgroup, contact, hcontact, spool, hspool, rfl⟩ := ho
    have hget : ∀ {name}, name ∈ simplexNames → q.get? name = fieldOf simplexNames name v :=
      Record.get?_of_ofValue hq
    simp only [hv, Option.bind_some]
    rw [← hget (by decide), ← hget (by decide), ← hget (by decide), ← hget (by decide)]
    exact ⟨Record.written_of_withDefault asText_eq_ok_iff.1 hprogram,
      Record.ofText?_of_omittable hgroup, Record.ofText?_of_omittable hcontact,
      Record.ofText?_of_omittable hspool⟩
  · rw [hnone]
    exact ⟨rfl, rfl, rfl, rfl⟩

/-- What a section of a file says on Matrix, or what is said where there is none. -/
theorem fields_of_matrix {r : Record} {o : MatrixOptions}
    (h : r.withDefault "matrix" .default MatrixOptions.ofValue = .ok o) :
    .ofText? o.room = ((r.get? "matrix").bind (fieldOf matrixNames "room_id")).getD .null ∧
      .ofText? o.credentialsFile =
        ((r.get? "matrix").bind (fieldOf matrixNames "credentials_file")).getD .null ∧
      .ofText? o.cursorFile =
        ((r.get? "matrix").bind (fieldOf matrixNames "cursor_file")).getD .null := by
  rcases Record.withDefault_eq_ok_iff.1 h with ⟨v, hv, ho⟩ | ⟨hnone, rfl⟩
  · simp only [MatrixOptions.ofValue, bind_eq_ok, pure_eq_ok] at ho
    obtain ⟨q, hq, room, hroom, credentials, hcredentials, cursor, hcursor, rfl⟩ := ho
    have hget : ∀ {name}, name ∈ matrixNames → q.get? name = fieldOf matrixNames name v :=
      Record.get?_of_ofValue hq
    simp only [hv, Option.bind_some]
    rw [← hget (by decide), ← hget (by decide), ← hget (by decide)]
    exact ⟨Record.ofText?_of_omittable hroom, Record.ofText?_of_omittable hcredentials,
      Record.ofText?_of_omittable hcursor⟩
  · rw [hnone]
    exact ⟨rfl, rfl, rfl⟩

/-- A setting is what the file gives for it, or its default. -/
theorem of_ofValue (h : Settings.ofValue v = .ok s) (x : Setting) :
    x.of s = (x.given v).getD x.default := by
  simp only [Settings.ofValue, bind_eq_ok, pure_eq_ok] at h
  obtain ⟨r, hr, agentId, hagentId, transport, htransport, days, hdays, memory, hmemory, legacy,
    hlegacy, simplex, hsimplex, matrix, hmatrix, rfl⟩ := h
  have hget : ∀ {name}, name ∈ topNames → r.get? name = fieldOf topNames name v :=
    Record.get?_of_ofValue hr
  obtain ⟨hprogram, hgroup, hcontact, hspool⟩ := fields_of_simplex hsimplex
  obtain ⟨hroom, hcredentials, hcursor⟩ := fields_of_matrix hmatrix
  cases x with
  | agentId =>
    rw [given, place, lookUp_single, ← hget (by decide)]
    exact Record.ofText?_of_omittable hagentId
  | transport =>
    rw [given, place, lookUp_single, ← hget (by decide)]
    exact Record.written_of_withDefault asText_eq_ok_iff.1 htransport
  | pruneDays =>
    rw [given, place, lookUp_single, ← hget (by decide)]
    exact Record.written_of_withDefault eq_of_asWord hdays
  | memoryCommand =>
    rw [given, place, lookUp_single, ← hget (by decide)]
    exact Record.ofText?_of_omittable hmemory
  | legacyFolder =>
    rw [given, place, lookUp_single, ← hget (by decide)]
    exact Record.ofText?_of_omittable hlegacy
  | simplexProgram => rwa [given, place, lookUp_section (hget (by decide))]
  | simplexGroup => rwa [given, place, lookUp_section (hget (by decide))]
  | simplexContact => rwa [given, place, lookUp_section (hget (by decide))]
  | simplexSpool => rwa [given, place, lookUp_section (hget (by decide))]
  | matrixRoom => rwa [given, place, lookUp_section (hget (by decide))]
  | matrixCredentials => rwa [given, place, lookUp_section (hget (by decide))]
  | matrixCursor => rwa [given, place, lookUp_section (hget (by decide))]

theorem of_default (x : Setting) : x.of .default = x.default := by cases x <;> rfl

theorem overlaid_of_none {x : Setting} (h : x.environmentName? = none) (below : Value) :
    x.overlaid lookup below = some below := by
  rw [overlaid, h]
  rfl

/-- A text is what a variable says, or what lies below. -/
theorem overlaid_text {x : Setting} {name : String} (h : x.environmentName? = some name)
    (hx : x ≠ pruneDays) (below : String) :
    x.overlaid lookup (.text below) = some (.text ((Text.nonBlank? (lookup name)).getD below)) := by
  rw [overlaid, h, Option.bind_some]
  cases Text.nonBlank? (lookup name) with
  | none => rfl
  | some text => cases x <;> first | rfl | exact absurd rfl hx

theorem overlaid_ofText? {x : Setting} {name : String} (h : x.environmentName? = some name)
    (hx : x ≠ pruneDays) (below : Option String) :
    x.overlaid lookup (.ofText? below) =
      some (.ofText? ((Text.nonBlank? (lookup name)).or below)) := by
  rw [overlaid, h, Option.bind_some]
  cases Text.nonBlank? (lookup name) with
  | none => rfl
  | some text => cases x <;> first | rfl | exact absurd rfl hx

/-- The number of days under an environment. -/
def daysUnder (lookup : String → Option String) (below : Nat) : Except ConfigFault Nat :=
  match Text.nonBlank? (lookup "AGENT_MAIL_PRUNE_DAYS") with
  | none => .ok below
  | some text =>
    match Text.unsigned? Text.maxWord text.toList with
    | some n => .ok n
    | none => .error (.badDays text)

/-- The settings under an environment, with a number of days. -/
def under (lookup : String → Option String) (s : Settings) (days : Nat) : Settings :=
  let get (name : String) := Text.nonBlank? (lookup name)
  { agentId := (get "AGENT_MAIL_AGENT_ID").or s.agentId
    transport := (get "AGENT_MAIL_TRANSPORT").getD s.transport
    pruneDays := days
    memoryCommand := (get "AGENT_MAIL_MEMORY_CMD").or s.memoryCommand
    legacyFolder := s.legacyFolder
    simplex := ⟨(get "AGENT_MAIL_SIMPLEX_BIN").getD s.simplex.program,
      (get "AGENT_MAIL_SIMPLEX_GROUP").or s.simplex.group,
      (get "AGENT_MAIL_SIMPLEX_CONTACT").or s.simplex.contact, s.simplex.spoolFolder⟩
    matrix := ⟨(get "AGENT_MAIL_MATRIX_ROOM").or s.matrix.room,
      (get "AGENT_MAIL_MATRIX_CREDENTIALS").or s.matrix.credentialsFile, s.matrix.cursorFile⟩ }

theorem overlay_eq (s : Settings) (lookup : String → Option String) :
    s.overlay lookup = (daysUnder lookup s.pruneDays).map (under lookup s) := by
  cases hget : Text.nonBlank? (lookup "AGENT_MAIL_PRUNE_DAYS") with
  | none =>
    simp only [Settings.overlay, daysUnder, hget]
    rfl
  | some text =>
    simp only [Settings.overlay, daysUnder, hget]
    cases Text.unsigned? Text.maxWord text.toList <;> rfl

theorem overlaid_pruneDays (below : Nat) : pruneDays.overlaid lookup (.count below) =
    (daysUnder lookup below).toOption.map Value.count := by
  rw [overlaid, environmentName?, Option.bind_some, daysUnder]
  cases Text.nonBlank? (lookup "AGENT_MAIL_PRUNE_DAYS") with
  | none => rfl
  | some text =>
    show (Text.unsigned? Text.maxWord text.toList).map Value.count = _
    dsimp only
    cases Text.unsigned? Text.maxWord text.toList <;> rfl

/-- What the environment says, or else what the settings below it say. -/
theorem of_overlay (h : s.overlay lookup = .ok s') (x : Setting) :
    x.overlaid lookup (x.of s) = some (x.of s') := by
  rw [overlay_eq] at h
  cases hdays : daysUnder lookup s.pruneDays with
  | error e =>
    rw [hdays] at h
    cases h
  | ok days =>
    rw [hdays] at h
    obtain rfl := Except.ok.inj h
    cases x with
    | pruneDays =>
      rw [of, overlaid_pruneDays, hdays]
      rfl
    | agentId => exact overlaid_ofText? rfl (by decide) s.agentId
    | transport => exact overlaid_text rfl (by decide) s.transport
    | memoryCommand => exact overlaid_ofText? rfl (by decide) s.memoryCommand
    | simplexProgram => exact overlaid_text rfl (by decide) s.simplex.program
    | simplexGroup => exact overlaid_ofText? rfl (by decide) s.simplex.group
    | simplexContact => exact overlaid_ofText? rfl (by decide) s.simplex.contact
    | matrixRoom => exact overlaid_ofText? rfl (by decide) s.matrix.room
    | matrixCredentials => exact overlaid_ofText? rfl (by decide) s.matrix.credentialsFile
    | legacyFolder => exact overlaid_of_none rfl _
    | simplexSpool => exact overlaid_of_none rfl _
    | matrixCursor => exact overlaid_of_none rfl _

/-- Only the number of days can be unreadable. -/
theorem exists_overlay_iff : (∃ s', s.overlay lookup = .ok s') ↔
    ∃ v, pruneDays.overlaid lookup (pruneDays.of s) = some v := by
  rw [of, overlaid_pruneDays, overlay_eq]
  cases daysUnder lookup s.pruneDays with
  | error e =>
    constructor
    · rintro ⟨s', hs'⟩
      cases hs'
    · rintro ⟨v, hv⟩
      cases hv
  | ok days => exact ⟨fun _ => ⟨_, rfl⟩, fun _ => ⟨_, rfl⟩⟩

/-- Blanks around what a variable says make no difference, and blank variables none at all. -/
theorem overlay_congr {lookup' : String → Option String}
    (h : ∀ name, Text.nonBlank? (lookup' name) = Text.nonBlank? (lookup name)) :
    s.overlay lookup' = s.overlay lookup := by
  simp only [Settings.overlay, h]

end

end Setting

/-! ### Loading -/

/-- The settings file of a home folder: there is none, or it is accepted as this value. -/
inductive SettingsFile (home : String) (w : Surroundings) : Option Value → Prop
  | absent (h : w.isThere (PathText.join home "settings.json") = false) : SettingsFile home w none
  | accepted {content : String} {v : Value} {s : Settings}
      (hread : w.readText (PathText.join home "settings.json") = .ok content)
      (hparse : Value.parse content = .ok v) (hvalue : Settings.ofValue v = .ok s) :
      SettingsFile home w (some v)

theorem isThere_of_readText {w : Surroundings} {path content : String}
    (h : w.readText path = .ok content) : w.isThere path = true := by
  rw [Surroundings.readText] at h
  obtain ⟨l, hl, h⟩ := bind_eq_ok.1 h
  rw [Surroundings.isThere, Surroundings.node?, hl]
  rw [Tree.readText, Tree.read] at h
  cases hnode : w.tree.node? l with
  | none =>
    rw [hnode] at h
    cases h
  | some n =>
    show (w.tree.node? l).isSome = true
    rw [hnode]
    rfl

/-- The settings in a file, or those where there is none. -/
def storedIn : Option Value → Except Problem Settings
  | none => .ok .default
  | some v => Settings.ofValue v

theorem SettingsFile.exists_stored {home : String} {w : Surroundings} {file : Option Value}
    (h : SettingsFile home w file) : ∃ stored, storedIn file = .ok stored ∧
      storedSettings home w = .ok stored ∧
      ∀ x : Setting, x.of stored = (file.bind x.given).getD x.default := by
  cases h with
  | absent h =>
    refine ⟨.default, rfl, ?_, Setting.of_default⟩
    rw [storedSettings, h]
    rfl
  | @accepted content v s hread hparse hvalue =>
    refine ⟨s, hvalue, ?_, Setting.of_ofValue hvalue⟩
    rw [storedSettings, if_pos (isThere_of_readText hread), hread]
    show Config.readSettings content = _
    rw [Config.readSettings, hparse]
    dsimp only
    rw [hvalue]

/-- Settings with these values can be used. -/
structure Usable (value : Setting → Option Value) : Prop where
  transport : ∃ name sel, value .transport = some (.text name) ∧
    Selector.ofName? name = some sel
  pruneDays : ∃ n, value .pruneDays = some (.count n) ∧ 1 ≤ n
  agentId : value .agentId = some .null ∨
    ∃ id, value .agentId = some (.text id) ∧ isWireSafe id = true

theorem usable_iff {value : Setting → Option Value} {s : Settings}
    (h : ∀ x : Setting, value x = some (x.of s)) : Usable value ↔ s.check = .ok () := by
  rw [Settings.check_eq_ok_iff]
  constructor
  · rintro ⟨⟨name, sel, hname, hsel⟩, ⟨n, hn, hpos⟩, hid⟩
    rw [h, Setting.of, Option.some.injEq, Value.text.injEq] at hname
    rw [h, Setting.of, Option.some.injEq, Value.count, Value.count, Value.integer.injEq] at hn
    refine ⟨⟨sel, hname ▸ hsel⟩, by omega, fun id hsome => ?_⟩
    rw [h, Setting.of, hsome] at hid
    rcases hid with hnull | ⟨id', hid', hsafe⟩
    · cases hnull
    · rw [Option.some.injEq, Value.ofText?, Value.text.injEq] at hid'
      rw [hid', hsafe]
  · rintro ⟨⟨sel, hsel⟩, hpos, hid⟩
    refine ⟨⟨s.transport, sel, h .transport, hsel⟩, ⟨s.pruneDays, h .pruneDays, hpos⟩, ?_⟩
    rw [h, Setting.of]
    cases hsome : s.agentId with
    | none => exact .inl rfl
    | some id => exact .inr ⟨id, rfl, hid id hsome⟩

section

variable {home : String} {w : Surroundings} {file : Option Value} {c : Config}
  {stored settings : Settings}

/-- What comes out of the layers is what the environment makes of the settings that are stored. -/
theorem layered_eq {lookup : String → Option String}
    (hof : ∀ x : Setting, x.of stored = (file.bind x.given).getD x.default)
    (hover : stored.overlay lookup = .ok settings) (x : Setting) :
    x.layered file lookup = some (x.of settings) := by
  rw [← Setting.of_overlay hover, hof, Setting.layered]

/-- Once there are stored settings, all that can be wrong is wrong with the settings. -/
theorem load_of_stored (h : storedSettings home w = .ok stored) :
    Config.load home w = Except.mapError Error.config (do
      let settings ← stored.overlay w.environmentValue?
      settings.check
      return ⟨home, settings⟩) := by
  rw [load_eq, h]
  simp only [mapError_bind]
  rfl

theorem given_of_load (h : SettingsFile home w file) (hload : Config.load home w = .ok c)
    (x : Setting) : x.given c.settings.toValue = x.layered file w.environmentValue? := by
  obtain ⟨stored, -, hstored, hof⟩ := h.exists_stored
  obtain ⟨stored', settings, hstored', hover, -, rfl⟩ := load_eq_ok_iff.1 hload
  obtain rfl := Except.ok.inj (hstored.symm.trans hstored')
  rw [Setting.given_toValue, layered_eq hof hover]

theorem exists_load_iff_usable (h : SettingsFile home w file) :
    (∃ c, Config.load home w = .ok c) ↔ Usable fun x => x.layered file w.environmentValue? := by
  obtain ⟨stored, -, hstored, hof⟩ := h.exists_stored
  constructor
  · rintro ⟨c, hload⟩
    obtain ⟨stored', settings, hstored', hover, hcheck, rfl⟩ := load_eq_ok_iff.1 hload
    obtain rfl := Except.ok.inj (hstored.symm.trans hstored')
    exact (usable_iff (layered_eq hof hover)).2 hcheck
  · intro husable
    obtain ⟨n, hn, -⟩ := husable.pruneDays
    rw [Setting.layered, ← hof] at hn
    obtain ⟨settings, hover⟩ := Setting.exists_overlay_iff.2 ⟨_, hn⟩
    have hcheck := (usable_iff (layered_eq hof hover)).1 husable
    exact ⟨_, load_eq_ok_iff.2 ⟨stored, settings, hstored, hover, hcheck, rfl⟩⟩

/-- With such a file only the layers as a whole can be refused. -/
theorem exists_config_fault (h : SettingsFile home w file)
    (hnone : ¬ ∃ c, Config.load home w = .ok c) : ∃ e, Config.load home w = .error (.config e) := by
  obtain ⟨stored, -, hstored, -⟩ := h.exists_stored
  rw [load_of_stored hstored] at hnone ⊢
  cases hconfigured : (do
      let settings ← stored.overlay w.environmentValue?
      settings.check
      return ⟨home, settings⟩ : Except ConfigFault Config) with
  | error e => exact ⟨e, rfl⟩
  | ok c =>
    rw [hconfigured] at hnone
    exact absurd ⟨c, rfl⟩ hnone

theorem load_congr {w' : Surroundings} (h : SettingsFile home w file)
    (h' : SettingsFile home w' file) (hsame : ∀ name,
      Text.nonBlank? (w'.environmentValue? name) = Text.nonBlank? (w.environmentValue? name)) :
    Config.load home w' = Config.load home w := by
  obtain ⟨stored, hin, hstored, -⟩ := h.exists_stored
  obtain ⟨stored', hin', hstored', -⟩ := h'.exists_stored
  obtain rfl := Except.ok.inj (hin.symm.trans hin')
  rw [load_of_stored hstored, load_of_stored hstored', Setting.overlay_congr hsame]

/-- With a settings file that is accepted, or none, a configuration is loaded if and only if what
comes out of the layers can be used, and then each setting is what comes out of its layers: what its
variable says unless that is blank, or else what the file says, or else the default. Otherwise it is
refused for its settings. Blank variables and blanks around the others make no difference, and a
setting changes with no variable but its own. -/
theorem settings_come_in_layers (h : SettingsFile home w file) :
    ((∃ c, Config.load home w = .ok c) ↔ Usable fun x => x.layered file w.environmentValue?) ∧
    (∀ c, Config.load home w = .ok c → c.home = home ∧
      ∀ x : Setting, x.given c.settings.toValue = x.layered file w.environmentValue?) ∧
    ((¬ ∃ c, Config.load home w = .ok c) → ∃ e, Config.load home w = .error (.config e)) ∧
    ∀ w', SettingsFile home w' file →
      ((∀ name, Text.nonBlank? (w'.environmentValue? name) =
          Text.nonBlank? (w.environmentValue? name)) →
        Config.load home w' = Config.load home w) ∧
      ∀ x : Setting, (∀ name, x.environmentName? = some name →
          w'.environmentValue? name = w.environmentValue? name) →
        ∀ c c', Config.load home w = .ok c → Config.load home w' = .ok c' →
          x.given c'.settings.toValue = x.given c.settings.toValue := by
  refine ⟨exists_load_iff_usable h, fun c hload => ⟨?_, given_of_load h hload⟩,
    exists_config_fault h, fun w' h' => ⟨load_congr h h', fun x hx c c' hload hload' => ?_⟩⟩
  · obtain ⟨-, -, -, -, -, rfl⟩ := load_eq_ok_iff.1 hload
    rfl
  · rw [given_of_load h hload, given_of_load h' hload', Setting.layered, Setting.layered,
      Setting.overlaid, Setting.overlaid]
    cases hname : x.environmentName? with
    | none => rfl
    | some name => rw [Option.bind_some, Option.bind_some, hx name hname]

end

/-- A settings file with a transport that is not known and no days. The section is given as a
list. -/
def spoiltText : String :=
  "\x7b\"transport\":\"post\",\"prune_days\":0,\"simplex\":[\"spx\",\"club\"]\x7d"

/-- What it says. -/
def spoiltValue : Value :=
  .object [("transport", .text "post"), ("prune_days", .count 0),
    ("simplex", .list [.text "spx", .text "club"])]

/-- A home with this file, and an environment. -/
def spoiltHome (environment : List (String × String)) : Surroundings :=
  { Surroundings.bare with
    tree := ⟨[(["home"], .folder),
      (["home", "settings.json"], .file ⟨.bytes (Text.encodeUtf8 spoiltText), 0⟩)]⟩
    environment }

theorem settingsFile_spoiltHome (environment : List (String × String)) :
    SettingsFile "home" (spoiltHome environment) (some spoiltValue) := by
  have hread : (spoiltHome environment).readText (PathText.join "home" "settings.json") =
      .ok spoiltText := by
    show (spoiltHome []).readText (PathText.join "home" "settings.json") = _
    decide +kernel
  have hparse : Value.parse spoiltText = .ok spoiltValue := by rfl
  have hvalue : Settings.ofValue spoiltValue = .ok { Settings.default with
      transport := "post"
      pruneDays := 0
      simplex := ⟨"spx", some "club", none, none⟩ } := by decide +kernel
  exact .accepted hread hparse hvalue

/-- The environment that makes up for it. -/
def repairs : List (String × String) :=
  [("AGENT_MAIL_TRANSPORT", " matrix"), ("AGENT_MAIL_PRUNE_DAYS", "+14 "),
    ("AGENT_MAIL_SIMPLEX_GROUP", " \t"), ("AGENT_MAIL_AGENT_ID", "agent-b")]

theorem settings_come_in_layers_spoiltHome :
    SettingsFile "home" (spoiltHome []) (some spoiltValue) ∧
      SettingsFile "home" (spoiltHome repairs) (some spoiltValue) ∧
      (∃ e, Config.load "home" (spoiltHome []) = .error (.config e)) ∧
      ∃ c, Config.load "home" (spoiltHome repairs) = .ok c ∧
        Setting.transport.given c.settings.toValue = some (.text "matrix") ∧
        Setting.pruneDays.given c.settings.toValue = some (.count 14) ∧
        Setting.agentId.given c.settings.toValue = some (.text "agent-b") ∧
        Setting.simplexProgram.given c.settings.toValue = some (.text "spx") ∧
        Setting.simplexGroup.given c.settings.toValue = some (.text "club") ∧
        Setting.matrixCursor.given c.settings.toValue = some .null := by
  have hplain := settingsFile_spoiltHome []
  have hrepaired := settingsFile_spoiltHome repairs
  obtain ⟨hplainLoads, -, hrefused, -⟩ := settings_come_in_layers hplain
  obtain ⟨hloads, hlayers, -⟩ := settings_come_in_layers hrepaired
  have hdays : ¬ ∃ c, Config.load "home" (spoiltHome []) = .ok c := by
    intro hload
    obtain ⟨n, hn, hpos⟩ := (hplainLoads.1 hload).pruneDays
    have hzero : some (Value.count 0) = some (.count n) := hn
    rw [Option.some.injEq, Value.count, Value.count, Value.integer.injEq] at hzero
    omega
  obtain ⟨c, hc⟩ := hloads.2
    ⟨⟨"matrix", .matrix, by rfl, by decide⟩, ⟨14, by rfl, by decide⟩,
      .inr ⟨"agent-b", by rfl, by decide⟩⟩
  have hof := (hlayers c hc).2
  refine ⟨hplain, hrepaired, hrefused hdays, c, hc, ?_, ?_, ?_, ?_, ?_, ?_⟩
  · exact hof .transport
  · exact hof .pruneDays
  · exact hof .agentId
  · exact hof .simplexProgram
  · exact hof .simplexGroup
  · exact hof .matrixCursor

end Mailroom
