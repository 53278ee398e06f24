/-
Taking over a legacy mailbox takes in the messages of its records.

* `legacyMessage?` — the message of one file, if it holds a record;
* `takeOverFile_eq`, `takeOver_eq` — the store afterwards has taken in such messages;
* `message_eq_ok_iff` — the message of some fields;
* `wellShaped_of_parse` — the stamps of a record's message fit its status.
-/
import Mailroom.Legacy.Import
import Mailroom.Proofs.Outcome
import Mailroom.Proofs.Store.Lifecycle
import Mailroom.Proofs.Store.Rows

namespace Mailroom

/-- The message of a file of a legacy folder, if it holds a record. -/
def legacyMessage? (w : Surroundings) (archived : Bool) (l : Location) : Option Message :=
  match w.tree.readText l with
  | .error _ => none
  | .ok content => (LegacyRecord.parse content archived).toOption

theorem takeOverFile_eq (w : Surroundings) (archived : Bool) (state : Store × Import)
    (l : Location) : (takeOverFile w archived state l).1 =
      state.1.takeIn (legacyMessage? w archived l).toList := by
  obtain ⟨s, report⟩ := state
  unfold takeOverFile legacyMessage?
  cases w.tree.readText l with
  | error e => rfl
  | ok content =>
    dsimp only
    cases LegacyRecord.parse content archived <;> rfl

theorem takeOverFiles_eq (w : Surroundings) (archived : Bool) (files : List Location)
    (state : Store × Import) : (files.foldl (takeOverFile w archived) state).1 =
      state.1.takeIn (files.filterMap (legacyMessage? w archived)) := by
  induction files generalizing state with
  | nil => rfl
  | cons l files ih =>
    rw [List.foldl_cons, ih, takeOverFile_eq, ← Store.takeIn_append]
    cases h : legacyMessage? w archived l <;> simp [h]

/-- The messages of the records in some folders, up to the first folder that is refused. -/
def legacyMessages (w : Surroundings) (path : String) : List (String × Bool) → List Message
  | [] => []
  | (name, archived) :: rest =>
    match legacyFiles w (PathText.join path name) with
    | .error _ => []
    | .ok files => files.filterMap (legacyMessage? w archived) ++ legacyMessages w path rest

theorem legacyMessages_cons (w : Surroundings) (path name : String) (archived : Bool)
    (rest : List (String × Bool)) : legacyMessages w path ((name, archived) :: rest) =
      match legacyFiles w (PathText.join path name) with
      | .error _ => []
      | .ok files =>
        files.filterMap (legacyMessage? w archived) ++ legacyMessages w path rest := by
  rfl

theorem takeOverFolders_cons (w : Surroundings) (path name : String) (archived : Bool)
    (rest : List (String × Bool)) (state : Store × Import) :
    takeOverFolders w path ((name, archived) :: rest) state =
      match legacyFiles w (PathText.join path name) with
      | .error e => (.error e, state.1)
      | .ok files =>
        takeOverFolders w path rest (files.foldl (takeOverFile w archived) state) := by
  rfl

theorem takeOverFolders_eq (w : Surroundings) (path : String) (folders : List (String × Bool))
    (state : Store × Import) :
    (takeOverFolders w path folders state).2 = state.1.takeIn (legacyMessages w path folders) := by
  induction folders generalizing state with
  | nil => rfl
  | cons folder folders ih =>
    obtain ⟨name, archived⟩ := folder
    rw [takeOverFolders_cons, legacyMessages_cons]
    cases legacyFiles w (PathText.join path name) with
    | error e => rfl
    | ok files =>
      dsimp only
      rw [ih, takeOverFiles_eq, Store.takeIn_append]

theorem takeOver_eq (s : Store) (w : Surroundings) (path : String) :
    (s.takeOver w path).2 =
      s.takeIn (if w.isFolder path then legacyMessages w path legacyFolders else []) := by
  unfold Store.takeOver
  split
  · exact takeOverFolders_eq ..
  · rfl

/-! ### What is taken over is in shape -/

theorem exists_parse_of_legacyMessage? {w : Surroundings} {archived : Bool} {l : Location}
    {m : Message} (h : legacyMessage? w archived l = some m) :
    ∃ content, LegacyRecord.parse content archived = .ok m := by
  unfold legacyMessage? at h
  split at h
  · exact absurd h (by simp)
  · rename_i content _
    cases hp : LegacyRecord.parse content archived with
    | error e => simp [hp, Except.toOption] at h
    | ok m' =>
      obtain rfl : m' = m := by simpa [hp, Except.toOption] using h
      exact ⟨content, hp⟩

theorem exists_parse_of_mem_legacyMessages {w : Surroundings} {path : String}
    {folders : List (String × Bool)} {m : Message} (h : m ∈ legacyMessages w path folders) :
    ∃ content archived, LegacyRecord.parse content archived = .ok m := by
  induction folders with
  | nil => exact absurd h List.not_mem_nil
  | cons folder folders ih =>
    obtain ⟨name, archived⟩ := folder
    rw [legacyMessages_cons] at h
    split at h
    · exact absurd h (by simp)
    · rcases List.mem_append.1 h with h | h
      · obtain ⟨l, -, hl⟩ := List.mem_filterMap.1 h
        obtain ⟨content, hparse⟩ := exists_parse_of_legacyMessage? hl
        exact ⟨content, archived, hparse⟩
      · exact ih h

/-- The fields of which a message can be made, and that message. -/
theorem message_eq_ok_iff {f : LegacyRecord.Fields} {payload : List Char} {archived : Bool}
    {m : Message} : LegacyRecord.message f payload archived = .ok m ↔
      (f.id ≠ [] ∧ f.sender ≠ [] ∧ f.recipient ≠ []) ∧ ∃ time status type priority,
        Time.Rfc3339.parseChars f.time = .ok time ∧
        (if archived then .archived = status
          else MessageStatus.ofName? (String.ofList f.status) = some status) ∧
        MessageType.ofName? (String.ofList f.type) = some type ∧
        Priority.ofName? (String.ofList f.priority) = some priority ∧
        m = ⟨String.ofList f.id, String.ofList f.sender, String.ofList f.recipient, type, priority,
          String.ofList f.convoy, String.ofList payload, status, time.stamp,
          if status = .unread then none else some time.stamp,
          if status = .archived then some time.stamp else none⟩ := by
  have hempty : (f.id.isEmpty || f.sender.isEmpty || f.recipient.isEmpty) = true ↔
      ¬ (f.id ≠ [] ∧ f.sender ≠ [] ∧ f.recipient ≠ []) := by
    simp only [Bool.or_eq_true, List.isEmpty_iff, ne_eq, not_and_or, not_not, or_assoc]
  by_cases hthere : f.id ≠ [] ∧ f.sender ≠ [] ∧ f.recipient ≠ []
  · have hfilled : ¬ (f.id.isEmpty || f.sender.isEmpty || f.recipient.isEmpty) = true :=
      fun h => hempty.1 h hthere
    rw [LegacyRecord.message, if_neg hfilled, and_iff_right hthere]
    cases archived <;>
      simp only [bind_eq_ok, mapError_eq_ok, pure_eq_ok, Bool.false_eq_true, if_false, if_true,
        MessageStatus.parse, MessageType.parse, Priority.parse, named_eq_ok_iff, ← exists_and_left,
        eq_comm (b := m)]
  · have hrefused : LegacyRecord.message f payload archived = .error .emptyField := by
      rw [LegacyRecord.message, if_pos (hempty.2 hthere)]
      rfl
    rw [hrefused]
    exact ⟨nofun, fun h => absurd h.1 hthere⟩

/-- A record's message is read and archived at the time of the record or not at all. -/
theorem wellShaped_of_message {f : LegacyRecord.Fields} {payload : List Char} {archived : Bool}
    {m : Message} (h : LegacyRecord.message f payload archived = .ok m) : m.WellShaped := by
  obtain ⟨-, time, status, type, priority, -, -, -, -, rfl⟩ := message_eq_ok_iff.1 h
  cases status <;> simp [Message.WellShaped]

theorem exists_message_of_parse {content : String} {archived : Bool} {m : Message}
    (h : LegacyRecord.parse content archived = .ok m) :
    ∃ f payload, LegacyRecord.message f payload archived = .ok m := by
  unfold LegacyRecord.parse LegacyRecord.ofLines at h
  split at h
  · exact absurd h (by simp)
  · split at h
    · exact absurd h (by simp)
    · exact absurd h (by simp)
    · rename_i row last payload _
      split at h
      · exact absurd h (by simp)
      · obtain ⟨fields, -, hmessage⟩ := bind_eq_ok.1 h
        exact ⟨fields, _, hmessage⟩

theorem wellShaped_of_parse {content : String} {archived : Bool} {m : Message}
    (h : LegacyRecord.parse content archived = .ok m) : m.WellShaped := by
  obtain ⟨f, payload, hmessage⟩ := exists_message_of_parse h
  exact wellShaped_of_message hmessage

end Mailroom
