/-
Which messages can be written on a line.

What is sent has been checked, and its id, sender, recipient and convoy can be written as they
are. What comes in is not checked: a text of several lines that is read as an envelope is stored
with its line breaks, and takes several lines when the inbox is printed.

* `isSafe_of_mem_messages` — the messages of a letter;
* `Operation.TakesFrom` — an operation that takes in only what is read from some texts;
* `isSafe_or_isReadFrom` — where a row comes from that cannot be written as it is;
* `line_breaks_come_from_texts` — these fields when they are read, stored and printed;
* `two_lines_for_one_message` — a text of two lines in a room.
-/
import Mailroom.Proofs.CommandLine.InboxListing
import Mailroom.Proofs.Mailbox.Inboxes
import Mailroom.Proofs.Mailbox.Origins
import Mailroom.Proofs.Transport.Sources
import Mailroom.Proofs.Transport.Stream

namespace Mailroom

variable {σ : Type} {texts : String → Prop} {ops : List (Operation σ)}

open Operation (run)

/-! ### What is sent -/

theorem isWireSafe_of_mem_recipients {l : Letter} {s : Store} (hs : s.RosterSound)
    (hto : isWireSafe l.recipient = true) {recipient : String} (h : recipient ∈ l.recipients s) :
    isWireSafe recipient = true := by
  unfold Letter.recipients at h
  split at h
  · split at h
    · rw [List.mem_singleton.1 h]
      decide
    · -- only ids that can travel stand on the roster
      obtain ⟨-, r, hr, -, rfl⟩ := Store.mem_activeExcept.1 h
      have henrollable := hs.enrollable r.id (List.mem_map_of_mem hr)
      exact (Bool.and_eq_true_iff.1 henrollable).2
  · rw [List.mem_singleton.1 h]
    exact hto

theorem isSafe_of_mem_messages {d : Draft} {self : String} {default : Selector} {l : Letter}
    (hcheck : d.check self default = .ok l) {s : Store} (hs : s.RosterSound) {time : String}
    {millis random : Nat → Nat} {m : Message}
    (hm : m ∈ l.messages s time fun i => messageId (millis i) (random i)) :
    m.row.heading.IsSafe := by
  obtain ⟨-, -, hto, hfrom, hconvoy⟩ := letter_of_check hcheck
  obtain ⟨i, hi, rfl⟩ := List.mem_mapIdx.1 hm
  have hrecipient := isWireSafe_of_mem_recipients hs hto (List.getElem_mem hi)
  have hid := isWireSafe_messageId (millis i) (random i)
  simp only [Heading.IsSafe, Heading.fields, List.forall_mem_cons]
  exact ⟨hid, hfrom, hrecipient, hconvoy, by simp⟩

/-! ### What is stored -/

/-- The ids that an operation gives out are made for it, and what it takes in is read from these
texts. -/
def Operation.TakesFrom (texts : String → Prop) : Operation σ → Prop
  | send _ _ _ ids _ => ∃ millis random : Nat → Nat, ids = fun i => messageId (millis i) (random i)
  | ingest e _ => e.IsReadFrom texts
  | receive b selector times w =>
    ∀ e time, (e, time) ∈ (pullAll times (b.visited selector) w).1 → e.IsReadFrom texts
  | _ => True

/-- A text that is read as an envelope with this heading and has a line break in it. -/
def BreaksInto (text : String) (h : Heading) : Prop :=
  HasBreak (Text.trim text.toList) ∧ ∃ e, Envelope.decode? text = some e ∧ e.heading = h

/-- A heading of a message in a legacy mailbox that is taken over. -/
def TakenOver (ops : List (Operation σ)) (h : Heading) : Prop :=
  ∃ w path, .takeOver w path ∈ ops ∧ ∃ m ∈ legacyMessages w path legacyFolders, m.row.heading = h

/-- Where the transports read only these texts, nothing else is received. -/
theorem takesFrom_receive {b : Mailbox σ} {selector : Option String}
    (hb : ∀ t ∈ b.visited selector, t.Reads texts) (times : Nat → String) (w : σ) :
    (Operation.receive b selector times w).TakesFrom texts :=
  fun _ _ he => isReadFrom_pullAll hb times w he

theorem isSafe_or_breaksInto {e : Envelope} (he : e.IsReadFrom texts) :
    e.heading.IsSafe ∨ ∃ text, texts text ∧ BreaksInto text e.heading := by
  obtain ⟨text, htext, hdecode⟩ := he
  by_cases hbreak : HasBreak (Text.trim text.toList)
  · exact .inr ⟨text, htext, hbreak, e, hdecode, rfl⟩
  · exact .inl ((Envelope.isSafe_iff_of_decode? hdecode).2 hbreak)

/-- A row that cannot be written as it is was read from a text with a line break in it, or was in
a legacy mailbox. -/
theorem isSafe_or_isReadFrom (hops : ∀ op ∈ ops, op.TakesFrom texts) {r : MessageRow}
    (hr : r ∈ (run ops).messages) : r.heading.IsSafe ∨
      (∃ text, texts text ∧ BreaksInto text r.heading) ∨ TakenOver ops r.heading := by
  obtain ⟨before, op, after, m, rfl, hbrings, hheading⟩ := exists_origin hr
  have hmem : op ∈ before ++ op :: after := by simp
  have htakes := hops op hmem
  rw [← hheading]
  cases op with
  | send b d time ids w =>
    obtain ⟨millis, random, rfl⟩ := htakes
    obtain ⟨l, hcheck, hm⟩ := hbrings
    exact .inl (isSafe_of_mem_messages hcheck (rosterSound_history before) hm)
  | ingest e time =>
    obtain rfl : m = e.arrived time := hbrings
    exact (isSafe_or_breaksInto htakes).imp_right .inl
  | receive b selector times w =>
    obtain ⟨e, time, he, -, rfl⟩ := mem_arrivals.1 hbrings
    exact (isSafe_or_breaksInto (htakes e time he)).imp_right .inl
  | takeOver w path => exact .inr (.inr ⟨w, path, hmem, m, hbrings.2, rfl⟩)
  | _ => exact hbrings.elim

/-- Without line feeds in the texts that are read there are none in the rows. -/
theorem feed_not_mem_of_history (hops : ∀ op ∈ ops, op.TakesFrom texts)
    (htexts : ∀ text, texts text → '\n' ∉ Text.trim text.toList)
    (hlegacy : ∀ w path, .takeOver w path ∉ ops) {r : MessageRow} (hr : r ∈ (run ops).messages) :
    ∀ field ∈ r.heading.fields, '\n' ∉ field.toList := by
  rcases isSafe_or_isReadFrom hops hr with hsafe | ⟨text, htext, -, e, hdecode, heq⟩ |
    ⟨w, path, hmem, -⟩
  · exact hsafe.feed_not_mem
  · rw [← heq]
    exact fun field hfield hmem => htexts text htext (e.mem_trim_of_decode? hdecode hfield hmem)
  · exact absurd hmem (hlegacy w path)

/-! ### What is printed -/

theorem mem_messages_of_check {b : Mailbox σ} {agent : Option String} {unreadOnly : Bool}
    {s : Store} {x : Inbox} (h : b.check agent unreadOnly s = .ok x) {m : Message}
    (hm : m ∈ x.messages) : m.row ∈ s.messages := by
  obtain ⟨r, hr, hrow⟩ := (mem_of_check h m).1 hm
  rw [toMessage_eq_ok_iff.1 hrow]
  exact (mem_inboxRows.1 hr).1

/-- Reading an envelope keeps the delimiter out of the fields that are written as they are, but
not the line breaks of the text; and the texts of a Matrix room may have any. What is sent has no
line break in these fields. So a row of a store has one only if it comes from such a text or from
a legacy mailbox; and if there are no line feeds in the texts and no legacy mailbox, an inbox is
printed with one line for each message. -/
theorem line_breaks_come_from_texts (hops : ∀ op ∈ ops, op.TakesFrom texts) :
    (∀ text e, Envelope.decode? text = some e →
      (∀ field ∈ e.heading.fields, delimiter ∉ field.toList) ∧
      (e.heading.IsSafe ↔ ¬ HasBreak (Text.trim text.toList))) ∧
    (∀ c : Config, ∀ t ∈ c.registry.transports,
      t.Reads fun text => t.name = Selector.matrix.name ∨ '\n' ∉ text.toList) ∧
    (∀ r ∈ (run ops).messages, r.heading.IsSafe ∨
      (∃ text, texts text ∧ BreaksInto text r.heading) ∨ TakenOver ops r.heading) ∧
    (∀ x : Inbox, x.IsLinewise ↔
      ∀ m ∈ x.messages, feeds m.id + feeds m.sender + feeds m.recipient = 0) ∧
    ((∀ text, texts text → '\n' ∉ Text.trim text.toList) →
      (∀ w path, .takeOver w path ∉ ops) →
        ∀ (b : Mailbox σ) agent unreadOnly x, b.check agent unreadOnly (run ops) = .ok x →
          x.IsLinewise) := by
  refine ⟨fun text e hdecode => ?_, reads_registry, fun r hr => isSafe_or_isReadFrom hops hr,
    fun x => x.isLinewise_iff, fun htexts hlegacy b agent unreadOnly x hcheck => ?_⟩
  · exact ⟨Envelope.delimiter_not_mem_of_decode? hdecode, Envelope.isSafe_iff_of_decode? hdecode⟩
  · refine x.isLinewise_iff.2 fun m hm => feeds_heading ?_
    exact feed_not_mem_of_history hops htexts hlegacy (mem_messages_of_check hcheck hm)

/-- The mailbox of `agent-b` with one transport. -/
def mailboxOver (t : Transport Surroundings) : Mailbox Surroundings :=
  ⟨⟨"agent-b", none, none⟩, .register .empty t, .all, none⟩

/-- The mailbox receives what there is. -/
def receiveOver (t : Transport Surroundings) (w : Surroundings) : Operation Surroundings :=
  .receive (mailboxOver t) none (fun _ => "2025-01-01T00:00:00.000Z") w

/-- A message that has come in. -/
def helloToAgentB (id : String) : Message :=
  ⟨id, "x", "agent-b", .request, .normal, "none", "hello", .unread, "2025-01-01T00:00:00.000Z",
    none, none⟩

/-- The transport over a spool. -/
def bySpool : Transport Surroundings := simplex ⟨"simplex-chat", none, none, "/spool"⟩

/-- The spool holds a line with a carriage return within its first field. -/
def returnInSpool : Surroundings :=
  { Surroundings.bare with
    tree := ⟨[(["spool"], .folder), (["spool", "1.txt"], .file ⟨.bytes (Text.encodeUtf8
      "AIMAIL:1|m\r1|x|agent-b|request|normal|none|aGVsbG8="), 0⟩)]⟩ }

/-- The carriage return is stored, but it breaks no line. -/
theorem line_breaks_come_from_texts_spool :
    (∀ op ∈ [receiveOver bySpool returnInSpool],
        op.TakesFrom fun text => '\n' ∉ Text.trim text.toList) ∧
      (run [receiveOver bySpool returnInSpool]).messages = [(helloToAgentB "m\r1").row] ∧
      ¬ (helloToAgentB "m\r1").row.heading.IsSafe ∧
      ∃ x, (mailboxOver bySpool).check none false
          (run [receiveOver bySpool returnInSpool]) = .ok x ∧
        x.messages.length = 1 ∧ x.IsLinewise := by
  have hops : ∀ op ∈ [receiveOver bySpool returnInSpool],
      op.TakesFrom fun text => '\n' ∉ Text.trim text.toList := by
    intro op hop
    obtain rfl := List.mem_singleton.1 hop
    refine takesFrom_receive (fun t ht => ?_) _ _
    obtain rfl : t = bySpool := List.mem_singleton.1 ht
    exact (reads_simplex _).mono fun text htext hmem => htext (Text.trim_subset _ hmem)
  have hlegacy : ∀ w path, .takeOver w path ∉ [receiveOver bySpool returnInSpool] :=
    fun w path hmem => absurd (List.mem_singleton.1 hmem) (by simp [receiveOver])
  have hcheck : (mailboxOver bySpool).check none false
      (run [receiveOver bySpool returnInSpool]) =
        .ok ⟨"agent-b", [helloToAgentB "m\r1"], 1, 1⟩ := by decide +kernel
  obtain ⟨-, -, -, -, hprinted⟩ := line_breaks_come_from_texts hops
  exact ⟨hops, by decide +kernel, by decide, _, hcheck, rfl,
    hprinted (fun _ htext => htext) hlegacy _ _ _ _ hcheck⟩

/-- The transport over a Matrix room. -/
def byRoom : Transport Surroundings :=
  matrix ⟨some "!room:example.org", "/credentials.json", "/cursor"⟩

/-- The latest page of the room holds a text. -/
def saidInRoom (text : String) : Surroundings :=
  { Surroundings.bare with
    tree := ⟨[(["credentials.json"], .file ⟨.bytes (Text.encodeUtf8 (Json.Value.compact (.object
      [("homeserver_url", .text "http://example.org"), ("access_token", .text "t")]))), 0⟩)]⟩
    replies := [.answer 200 (Text.encodeUtf8 (Json.Value.compact (.object [("chunk", .list
      [.object [("type", .text "m.room.message"), ("content", lineContent text)]])])))] }

/-- A text of two lines that is read as one envelope. -/
def twoLines : String := "AIMAIL:1|msg\n1|x|agent-b|request|normal|none|aGVsbG8="

/-- Such a text in the room is stored with a line feed in the id, and the inbox shows the one
message on two lines. -/
theorem two_lines_for_one_message :
    Envelope.decode? twoLines =
        some ⟨"msg\n1", "x", "agent-b", .request, .normal, "none", "hello"⟩ ∧
      isWireSafe "msg\n1" = false ∧
      (helloToAgentB "msg\n1").row ∈ (run [receiveOver byRoom (saidInRoom twoLines)]).messages ∧
      (mailboxOver byRoom).check none false (run [receiveOver byRoom (saidInRoom twoLines)]) =
        .ok ⟨"agent-b", [helloToAgentB "msg\n1"], 1, 1⟩ ∧
      report (Inbox.listing ⟨"agent-b", [helloToAgentB "msg\n1"], 1, 1⟩) =
        "Inbox for agent-b (1 message(s), 1 unread)\n" ++
          "  * [normal] msg\n1  x -> agent-b  request  hello\n" := by
  have hcheck : (mailboxOver byRoom).check none false
      (run [receiveOver byRoom (saidInRoom twoLines)]) =
        .ok ⟨"agent-b", [helloToAgentB "msg\n1"], 1, 1⟩ := by decide +kernel
  exact ⟨by decide +kernel, by decide, mem_messages_of_check hcheck List.mem_cons_self, hcheck,
    by decide +kernel⟩

end Mailroom
