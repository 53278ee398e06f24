/-
Legacy records are read as what they state.

A record is a header line, a row of eight fields between commas, a closing line and the payload.
Its lines end with a line feed, or with a carriage return and a line feed. What the payload consists
of makes no difference, since it begins only after the closing line.

* `LaidOut`, `written` — texts that are laid out like this, and one for each row and payload;
* `Fields.ofLine_row`, `fieldCount_of_few_commas` — how a row comes apart, and when it does not;
* `Content`, `Content.text`, `Content.message` — what a record can state, its text and its message;
* `Fields.Acceptable` — the fields of which a message can be made;
* `records_are_read_as_stated` — a record is read as what it states, and no text is accepted that
  lacks a field or has one that means nothing.
-/
import Mailroom.Proofs.EnvelopeBreaks
import Mailroom.Proofs.Legacy.TakeOver
import Mailroom.Proofs.Text.LineEnds
import Mailroom.Proofs.Time.Rfc3339Reading

namespace Mailroom

namespace Text

/-! ### Cutting at most so often -/

/-- Joined parts come apart again if only the last one holds separators. -/
theorem cutAtMost_intercalate {sep : Char} {parts : List (List Char)} (hne : parts ≠ [])
    (h : ∀ part ∈ parts.dropLast, sep ∉ part) :
    cutAtMost sep parts.length (List.intercalate [sep] parts) = parts := by
  induction parts with
  | nil => exact absurd rfl hne
  | cons part parts ih =>
    cases parts with
    | nil => rw [List.intercalate_singleton]; rfl
    | cons next parts =>
      rw [List.dropLast_cons_cons, List.forall_mem_cons] at h
      have hrest := ih (List.cons_ne_nil _ _) h.2
      rw [List.intercalate_cons_cons, List.append_assoc, List.singleton_append, List.length_cons,
        List.length_cons, cutAtMost, cut?_append h.1]
      exact congrArg (part :: ·) hrest

/-- With few separators there is one piece more than there are separators. -/
theorem length_cutAtMost {sep : Char} {n : Nat} {cs : List Char} (h : cs.count sep < n) :
    (cutAtMost sep n cs).length = cs.count sep + 1 := by
  induction n generalizing cs with
  | zero => exact absurd h (Nat.not_lt_zero _)
  | succ n ih =>
    cases n with
    | zero => rw [cutAtMost, List.length_singleton]; omega
    | succ n =>
      rw [cutAtMost]
      cases hcut : cut? sep cs with
      | none =>
        rw [List.count_eq_zero.2 (cut?_eq_none_iff.1 hcut)]
        rfl
      | some parts =>
        obtain ⟨before, after⟩ := parts
        obtain ⟨rfl, hbefore⟩ := cut?_eq_some_iff.1 hcut
        rw [List.count_append, List.count_eq_zero.2 hbefore, Nat.zero_add,
          List.count_cons_self] at h ⊢
        exact congrArg (· + 1) (ih (by omega))

end Text

namespace LegacyRecord

open Text (LineEnd IsLine)

/-! ### The layout of a text -/

/-- A text is laid out as a record with this row and this payload. -/
def LaidOut (content : String) (row payload : List Char) : Prop :=
  ∃ head last rest, Text.lines content.toList = head :: row :: last :: rest ∧
    opening <+: Text.trim head ∧ Text.trim last = closing ∧
    Text.trim (Text.unlines rest) = payload

theorem parse_of_laidOut {content : String} {row payload : List Char}
    (h : LaidOut content row payload) (archived : Bool) :
    parse content archived = (do message (← Fields.ofLine row) payload archived) := by
  obtain ⟨head, last, rest, hlines, hhead, hlast, rfl⟩ := h
  have hopening : opening.isPrefixOf (Text.trim head) = true := List.isPrefixOf_iff_prefix.2 hhead
  rw [parse, ofLines, hlines]
  simp only [List.headD_cons, hopening, Bool.not_true, Bool.false_eq_true, if_false,
    List.drop_succ_cons, List.drop_zero, hlast, ne_eq, not_true_eq_false]

/-- A text that is not laid out as a record is refused. -/
theorem exists_laidOut {content : String} {archived : Bool} {m : Message}
    (h : parse content archived = .ok m) : ∃ row payload, LaidOut content row payload := by
  rw [parse, ofLines] at h
  split at h
  · exact absurd h nofun
  · rename_i hhead
    rw [Bool.not_eq_true', Bool.not_eq_false, List.isPrefixOf_iff_prefix] at hhead
    split at h
    · exact absurd h nofun
    · exact absurd h nofun
    · rename_i row last rest hrows
      split at h
      · exact absurd h nofun
      · rename_i hlast
        cases hlines : Text.lines content.toList with
        | nil =>
          rw [hlines] at hrows
          exact absurd hrows nofun
        | cons head others =>
          rw [hlines] at hhead hrows
          obtain rfl : others = row :: last :: rest := hrows
          exact ⟨row, _, head, last, rest, hlines, hhead, not_not.1 hlast, rfl⟩

/-- The header line. -/
def header : List Char :=
  opening ++ "id,from,to,type,priority,convoy,timestamp,status\x7d:".toList

/-- How a record with this row and this payload is written, with any line ends. -/
def written (row payload : List Char) (e₁ e₂ e₃ : LineEnd) : String :=
  String.ofList (header ++ (e₁.chars ++ (row ++ (e₂.chars ++ (closing ++ (e₃.chars ++ payload))))))

theorem laidOut_written {row : List Char} (h : IsLine row) (payload : List Char)
    (e₁ e₂ e₃ : LineEnd) :
    LaidOut (written row payload e₁ e₂ e₃) row (Text.trim (Text.withFeeds payload)) := by
  have hheader : IsLine header := ⟨by decide, by decide⟩
  have hclosing : IsLine closing := ⟨by decide, by decide⟩
  refine ⟨header, closing, Text.lines payload, ?_, by decide, by decide,
    Text.trim_unlines_lines payload⟩
  rw [written, String.toList_ofList, Text.lines_append_end hheader, Text.lines_append_end h,
    Text.lines_append_end hclosing]

/-! ### The row -/

namespace Fields

/-- The fields in their order. -/
def parts (f : Fields) : List (List Char) :=
  [f.id, f.sender, f.recipient, f.type, f.priority, f.convoy, f.time, f.status]

/-- The fields between commas. -/
def row (f : Fields) : List Char := List.intercalate [','] f.parts

theorem row_eq (f : Fields) :
    f.row = (List.intercalate [','] f.parts.dropLast ++ [',']) ++ f.status := by
  simp only [row, parts, List.dropLast_cons_cons, List.dropLast_singleton,
    List.intercalate_cons_cons, List.intercalate_singleton, List.append_assoc]

/-- The fields without the blanks around them. -/
def trimmed (f : Fields) : Fields :=
  ⟨Text.trim f.id, Text.trim f.sender, Text.trim f.recipient, Text.trim f.type,
    Text.trim f.priority, Text.trim f.convoy, Text.trim f.time, Text.trim f.status⟩

/-- No field but the last one holds a comma. -/
def Apart (f : Fields) : Prop := ∀ part ∈ f.parts.dropLast, ',' ∉ part

instance (f : Fields) : Decidable f.Apart := inferInstanceAs (Decidable (∀ _ ∈ _, _))

theorem ofLine_row {f : Fields} (h : f.Apart) : ofLine f.row = .ok f.trimmed := by
  have hcut : Text.cutAtMost ',' 8 f.row = f.parts :=
    Text.cutAtMost_intercalate (List.cons_ne_nil _ _) h
  rw [ofLine, hcut]
  rfl

/-- A row with fewer than seven commas is refused. -/
theorem fieldCount_of_few_commas {row : List Char} (h : row.count ',' < 7) :
    ofLine row = .error (.fieldCount (row.count ',' + 1)) := by
  have hlength : ((Text.cutAtMost ',' 8 row).map Text.trim).length = row.count ',' + 1 := by
    rw [List.length_map, Text.length_cutAtMost (by omega)]
  rw [ofLine]
  split
  · rename_i hfields
    rw [hfields] at hlength
    simp only [List.length_cons, List.length_nil] at hlength
    omega
  · rw [hlength]

/-- A message can be made of the fields. The status of a record in the archive does not count. -/
structure Acceptable (f : Fields) (archived : Bool) : Prop where
  id_ne : f.id ≠ []
  sender_ne : f.sender ≠ []
  recipient_ne : f.recipient ≠ []
  type : ∃ t : MessageType, f.type = t.name.toList
  priority : ∃ p : Priority, f.priority = p.name.toList
  time : ∃ instant, Time.Rfc3339.parseChars f.time = .ok instant
  status : archived = false → ∃ s : MessageStatus, f.status = s.name.toList

end Fields

/-- A text that has a meaning is the name of it. -/
theorem exists_ofName?_iff {α : Type} {ofName? : String → Option α} {name : α → String}
    (hread : ∀ a, ofName? (name a) = some a) (hback : ∀ {s a}, ofName? s = some a → name a = s)
    (cs : List Char) :
    (∃ a, ofName? (String.ofList cs) = some a) ↔ ∃ a, cs = (name a).toList := by
  refine exists_congr fun a => ⟨fun h => ?_, fun h => ?_⟩
  · rw [hback h, String.toList_ofList]
  · rw [h, String.ofList_toList, hread]

theorem exists_message_iff {f : Fields} {payload : List Char} {archived : Bool} :
    (∃ m, message f payload archived = .ok m) ↔ f.Acceptable archived := by
  have htype := exists_ofName?_iff MessageType.ofName?_name MessageType.name_of_ofName? f.type
  have hpriority := exists_ofName?_iff Priority.ofName?_name Priority.name_of_ofName? f.priority
  have hstatus :=
    exists_ofName?_iff MessageStatus.ofName?_name MessageStatus.name_of_ofName? f.status
  constructor
  · rintro ⟨m, hm⟩
    obtain ⟨⟨hid, hsender, hrecipient⟩, instant, s, t, p, hinstant, hs, ht, hp, -⟩ :=
      message_eq_ok_iff.1 hm
    refine ⟨hid, hsender, hrecipient, htype.1 ⟨t, ht⟩, hpriority.1 ⟨p, hp⟩, ⟨instant, hinstant⟩, ?_⟩
    rintro rfl
    exact hstatus.1 ⟨s, hs⟩
  · intro h
    obtain ⟨t, ht⟩ := htype.2 h.type
    obtain ⟨p, hp⟩ := hpriority.2 h.priority
    obtain ⟨instant, hinstant⟩ := h.time
    obtain ⟨s, hs⟩ : ∃ s, if archived then MessageStatus.archived = s
        else MessageStatus.ofName? (String.ofList f.status) = some s := by
      cases archived with
      | false => exact hstatus.2 (h.status rfl)
      | true => exact ⟨.archived, rfl⟩
    exact ⟨_, message_eq_ok_iff.2 ⟨⟨h.id_ne, h.sender_ne, h.recipient_ne⟩, instant, s, t, p,
      hinstant, hs, ht, hp, rfl⟩⟩

/-! ### What a record states -/

/-- What a record can state. -/
structure Content where
  id : String
  sender : String
  recipient : String
  type : MessageType
  priority : Priority
  convoy : String
  time : Time.Rfc3339.Timestamp
  status : MessageStatus
  payload : String

/-- A text that can be a field of a row: without commas, within a line, no blanks around it. -/
structure IsField (cs : List Char) : Prop where
  trim_eq : Text.trim cs = cs
  comma_not_mem : ',' ∉ cs
  feed_not_mem : '\n' ∉ cs

instance (cs : List Char) : Decidable (IsField cs) :=
  decidable_of_iff (Text.trim cs = cs ∧ ',' ∉ cs ∧ '\n' ∉ cs)
    ⟨fun h => ⟨h.1, h.2.1, h.2.2⟩, fun h => ⟨h.trim_eq, h.comma_not_mem, h.feed_not_mem⟩⟩

namespace Content

/-- What has to be there is there, and the texts can be fields. -/
structure Plain (c : Content) : Prop where
  id_ne : c.id ≠ ""
  sender_ne : c.sender ≠ ""
  recipient_ne : c.recipient ≠ ""
  isField : ∀ text ∈ [c.id, c.sender, c.recipient, c.convoy], IsField text.toList

/-- The fields of the row. -/
def fields (c : Content) : Fields :=
  ⟨c.id.toList, c.sender.toList, c.recipient.toList, c.type.name.toList, c.priority.name.toList,
    c.convoy.toList, c.time.chars, c.status.name.toList⟩

/-- How the record is written, with any line ends. -/
def text (c : Content) (e₁ e₂ e₃ : LineEnd) : String :=
  written c.fields.row c.payload.toList e₁ e₂ e₃

/-- The message that the record states. It was read and archived when it was written, as far as its
status says so. -/
def message (c : Content) (archived : Bool) : Message :=
  let status := if archived then .archived else c.status
  let createdAt := c.time.instant.stamp
  { id := c.id
    sender := c.sender
    recipient := c.recipient
    type := c.type
    priority := c.priority
    convoy := c.convoy
    payload := String.ofList (Text.trim (Text.withFeeds c.payload.toList))
    status
    createdAt
    readAt := if status = .unread then none else some createdAt
    archivedAt := if status = .archived then some createdAt else none }

theorem Plain.isField_parts {c : Content} (h : c.Plain) :
    ∀ part ∈ c.fields.parts, IsField part := by
  have htype : IsField c.type.name.toList := by cases c.type <;> decide
  have hpriority : IsField c.priority.name.toList := by cases c.priority <;> decide
  have hstatus : IsField c.status.name.toList := by cases c.status <;> decide
  have htime : IsField c.time.chars :=
    ⟨Time.Rfc3339.trim_chars c.time, Time.Rfc3339.not_mem_chars c.time (by decide),
      Time.Rfc3339.not_mem_chars c.time (by decide)⟩
  have hfields := h.isField
  simp only [List.forall_mem_cons] at hfields
  obtain ⟨hid, hsender, hrecipient, hconvoy, -⟩ := hfields
  simp only [Fields.parts, fields, List.forall_mem_cons]
  exact ⟨hid, hsender, hrecipient, htype, hpriority, hconvoy, htime, hstatus, List.forall_mem_nil _⟩

theorem Plain.apart {c : Content} (h : c.Plain) : c.fields.Apart := fun part hpart =>
  (h.isField_parts part (List.dropLast_subset _ hpart)).comma_not_mem

theorem Plain.trimmed {c : Content} (h : c.Plain) : c.fields.trimmed = c.fields := by
  have htrim := fun part hpart => (h.isField_parts part hpart).trim_eq
  simp only [Fields.parts, fields, List.forall_mem_cons] at htrim
  obtain ⟨hid, hsender, hrecipient, htype, hpriority, hconvoy, htime, hstatus, -⟩ := htrim
  simp only [Fields.trimmed, fields, hid, hsender, hrecipient, htype, hpriority, hconvoy, htime,
    hstatus]

theorem Plain.isLine {c : Content} (h : c.Plain) : IsLine c.fields.row := by
  constructor
  · intro hfeed
    obtain ⟨part, hpart, hmem⟩ := (Text.mem_intercalate (by decide)).1 hfeed
    exact (h.isField_parts part hpart).feed_not_mem hmem
  · -- the row ends with the name of a status
    obtain ⟨front, hfront⟩ : ∃ front, c.fields.row = front ++ c.status.name.toList :=
      ⟨_, c.fields.row_eq⟩
    have hlast : c.status.name.toList ≠ [] ∧ c.status.name.toList.getLast? ≠ some '\r' := by
      cases c.status <;> decide
    rw [hfront, List.getLast?_append_of_ne_nil _ hlast.1]
    exact hlast.2

theorem Plain.message_eq {c : Content} (h : c.Plain) (archived : Bool) :
    LegacyRecord.message c.fields (Text.trim (Text.withFeeds c.payload.toList)) archived =
      .ok (c.message archived) := by
  have hne : ∀ {text : String}, text ≠ "" → text.toList ≠ [] := fun hne hnil =>
    hne (String.toList_eq_nil_iff.1 hnil)
  refine message_eq_ok_iff.2 ⟨⟨hne h.id_ne, hne h.sender_ne, hne h.recipient_ne⟩,
    c.time.instant, if archived then .archived else c.status, c.type, c.priority,
    Time.Rfc3339.parseChars_chars c.time, ?_, ?_, ?_, ?_⟩
  · cases archived with
    | false => exact (congrArg _ String.ofList_toList).trans (MessageStatus.ofName?_name _)
    | true => rfl
  · exact (congrArg _ String.ofList_toList).trans (MessageType.ofName?_name _)
  · exact (congrArg _ String.ofList_toList).trans (Priority.ofName?_name _)
  · simp only [message, fields, String.ofList_toList]

theorem Plain.parse_text {c : Content} (h : c.Plain) (e₁ e₂ e₃ : LineEnd) (archived : Bool) :
    parse (c.text e₁ e₂ e₃) archived = .ok (c.message archived) := by
  rw [text, parse_of_laidOut (laidOut_written h.isLine _ e₁ e₂ e₃), Fields.ofLine_row h.apart,
    h.trimmed]
  exact h.message_eq archived

end Content

/-! ### Records as a whole -/

/-- A record is read as what it states, whatever its payload consists of and however its lines end.
A text that is laid out as a record is accepted if and only if its fields are acceptable without the
blanks around them, and refused if it lacks one; any other text is refused. -/
theorem records_are_read_as_stated :
    (∀ c : Content, c.Plain → ∀ e₁ e₂ e₃ archived,
      parse (c.text e₁ e₂ e₃) archived = .ok (c.message archived)) ∧
    (∀ content (f : Fields) payload archived, LaidOut content f.row payload → f.Apart →
      ((∃ m, parse content archived = .ok m) ↔ f.trimmed.Acceptable archived)) ∧
    (∀ content row payload archived, LaidOut content row payload → row.count ',' < 7 →
      parse content archived = .error (.fieldCount (row.count ',' + 1))) ∧
    (∀ content archived m, parse content archived = .ok m →
      ∃ row payload, LaidOut content row payload) := by
  refine ⟨fun c h e₁ e₂ e₃ archived => h.parse_text e₁ e₂ e₃ archived, ?_, ?_, ?_⟩
  · intro content f payload archived hlaid hapart
    rw [parse_of_laidOut hlaid, Fields.ofLine_row hapart]
    exact exists_message_iff
  · intro content row payload archived hlaid hfew
    rw [parse_of_laidOut hlaid, Fields.fieldCount_of_few_commas hfew]
    rfl
  · intro content archived m h
    exact exists_laidOut h

/-- A record that has another record for its payload. -/
def nested : Content :=
  { id := "msg-1"
    sender := "agent-a"
    recipient := "agent-b"
    type := .discovery
    priority := .high
    convoy := ""
    time :=
      { year := ⟨2025, by decide⟩
        month := 3
        day := 1
        isValid := by decide
        separator := .capital
        hour := ⟨13, by decide⟩
        minute := ⟨30, by decide⟩
        second := ⟨60, by decide⟩
        fraction := ['2', '5']
        isDigit := List.all_eq_true.1 rfl
        zone := .offset .plus ⟨1, by decide⟩ ⟨0, by decide⟩ }
    status := .read
    payload := "-->\r\n<!--TOON:message\x7bid\x7d:\nmsg-2,x,y\r\n-->\n\n" }

/-- The payload is kept but for its line ends, and a blank id or a missing field is refused. -/
theorem records_are_read_as_stated_nested :
    nested.Plain ∧
      parse ("<!--TOON:message\x7bid,from,to,type,priority,convoy,timestamp,status\x7d:\r\n" ++
        "msg-1,agent-a,agent-b,discovery,high,,2025-03-01T13:30:60.25+01:00,read\n-->\r\n" ++
        nested.payload) false =
          .ok ⟨"msg-1", "agent-a", "agent-b", .discovery, .high, "",
            "-->\n<!--TOON:message\x7bid\x7d:\nmsg-2,x,y\n-->", .read, "2025-03-01T12:30:60.250Z",
            some "2025-03-01T12:30:60.250Z", none⟩ ∧
      (¬ ∃ m, parse ("<!--TOON:message\x7b\n" ++
        "  ,a,b,request,normal,,2025-01-01T00:00:00Z,read\n-->\n") true = .ok m) ∧
      parse "<!--TOON:message\x7b\nmsg-1,a,b\n-->\n" true = .error (.fieldCount 3) := by
  obtain ⟨hread, haccepted, hfew, -⟩ := records_are_read_as_stated
  have hplain : nested.Plain := ⟨by decide, by decide, by decide, by decide⟩
  refine ⟨hplain, ?_, ?_, ?_⟩
  · have htext : nested.text .returnFeed .feed .returnFeed =
        "<!--TOON:message\x7bid,from,to,type,priority,convoy,timestamp,status\x7d:\r\n" ++
          "msg-1,agent-a,agent-b,discovery,high,,2025-03-01T13:30:60.25+01:00,read\n-->\r\n" ++
          nested.payload := by decide +kernel
    have hmessage : nested.message false = ⟨"msg-1", "agent-a", "agent-b", .discovery, .high, "",
        "-->\n<!--TOON:message\x7bid\x7d:\nmsg-2,x,y\n-->", .read, "2025-03-01T12:30:60.250Z",
        some "2025-03-01T12:30:60.250Z", none⟩ := by decide +kernel
    rw [← htext, hread nested hplain, hmessage]
  · let f : Fields := ⟨"  ".toList, "a".toList, "b".toList, "request".toList, "normal".toList, [],
      "2025-01-01T00:00:00Z".toList, "read".toList⟩
    have hlaid : LaidOut ("<!--TOON:message\x7b\n" ++
        "  ,a,b,request,normal,,2025-01-01T00:00:00Z,read\n-->\n") f.row [] :=
      ⟨opening, closing, [], by decide +kernel, by decide, by decide, rfl⟩
    have hapart : f.Apart := by decide
    exact fun hm => ((haccepted _ f [] true hlaid hapart).1 hm).id_ne (by decide)
  · have hlaid : LaidOut "<!--TOON:message\x7b\nmsg-1,a,b\n-->\n" "msg-1,a,b".toList [] :=
      ⟨opening, closing, [], by decide +kernel, by decide, by decide, rfl⟩
    exact hfew _ _ [] true hlaid (by decide)

end LegacyRecord

end Mailroom
