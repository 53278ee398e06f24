/-
A letter that one machine relays arrives at another one.

The sender stores the letter and relays the line of its envelope. A mailbox elsewhere that
is handed this line reads the same envelope from it, and stores it if it is for its agent.

* `Received`, `Reaches` — what becomes of the letter there, whatever other mail comes with it: one
  new row under its id, or none if it is for others;
* `Delivered`, `Carries` — the same of the whole store, if no other mail comes with it;
* `received_of_decode`, `delivered_of_decode` — so it is with every line from which the letter's
  envelope is read;
* `letter_is_received`, `letter_is_delivered` — so it is with the line of every letter that is sent.

The new row is listed by a check whenever a check was possible before: a row from elsewhere
that stands for no message keeps the whole inbox from being listed.
-/
import Mailroom.Proofs.Mailbox.Arrivals
import Mailroom.Proofs.Mailbox.Inboxes
import Mailroom.Proofs.Mailbox.Letters
import Mailroom.Proofs.Transport.Stream

namespace Mailroom

/-- The row on another machine of a letter whose first row here is `r`. -/
def MessageRow.relayed (r : MessageRow) (broadcast : Bool) (time : String) : MessageRow :=
  { r with
    recipient := if broadcast then everyone else r.recipient
    status := MessageStatus.unread.name
    createdAt := time
    readAt := none
    archivedAt := none }

/-- Whether a letter is meant for an agent. -/
def Letter.IsMeantFor (l : Letter) (agent : String) : Prop :=
  l.isBroadcast = true ∨ l.recipient = agent

/-- What becomes of a letter at a mailbox, whatever else comes in with it: `row` is its first row at
the sender's, and `s` and `s'` are the store of the mailbox before and after its pass. -/
structure Received {τ : Type} (l : Letter) (row : MessageRow) (b : Mailbox τ) (s s' : Store) :
    Prop where
  kept : s.messages <+: s'.messages
  stored : l.IsMeantFor b.identity.agentId → ∃ time,
    s'.messages.filter (·.id == row.id) = [row.relayed l.isBroadcast time] ∧
      ((∃ inbox, b.check none false s = .ok inbox) ↔
        ∃ inbox, b.check none false s' = .ok inbox ∧
          ∃ m ∈ inbox.messages, m.row = row.relayed l.isBroadcast time)
  absent : ¬ l.IsMeantFor b.identity.agentId → s'.holds row.id = false

/-- A line brings a letter to every mailbox that does not hold it and is handed the line,
whatever other lines come with it, as long as they bring nothing for the agent under its id. -/
def Reaches (line : String) (l : Letter) (row : MessageRow) : Prop :=
  ∀ (τ : Type) (b : Mailbox τ) (selector : Option String) (times : Nat → String) (s : Store)
    (w : τ) (lines : List String), s.holds row.id = false →
    (pullAll times (b.visited selector) w).1.map Prod.fst = lines.filterMap Envelope.decode? →
    line ∈ lines →
    (∀ other ∈ lines, other ≠ line → ∀ e, Envelope.decode? other = some e →
      e.isFor b.identity.agentId = true → e.id ≠ row.id) →
    Received l row b s (b.receive selector times s w).2.1

/-- What becomes of the store of a mailbox by a letter alone. -/
structure Delivered {τ : Type} (l : Letter) (row : MessageRow) (b : Mailbox τ) (s s' : Store) :
    Prop where
  stored : l.IsMeantFor b.identity.agentId → ∃ time,
    s' = { s with messages := s.messages ++ [row.relayed l.isBroadcast time] } ∧
      ((∃ inbox, b.check none false s = .ok inbox) ↔
        ∃ inbox, b.check none false s' = .ok inbox ∧
          ∃ m ∈ inbox.messages, m.row = row.relayed l.isBroadcast time)
  untouched : ¬ l.IsMeantFor b.identity.agentId → s' = s

/-- A line delivers a letter to every mailbox that does not hold it and is handed the line;
other lines may come with it if they bring nothing for the agent. -/
def Carries (line : String) (l : Letter) (row : MessageRow) : Prop :=
  ∀ (τ : Type) (b : Mailbox τ) (selector : Option String) (times : Nat → String) (s : Store)
    (w : τ) (lines : List String), s.holds row.id = false →
    (pullAll times (b.visited selector) w).1.map Prod.fst = lines.filterMap Envelope.decode? →
    line ∈ lines →
    (∀ other ∈ lines, other ≠ line → ∀ e, Envelope.decode? other = some e →
      e.isFor b.identity.agentId = false) →
    Delivered l row b s (b.receive selector times s w).2.1

/-! ### What is handed over -/

theorem isFor_envelope {l : Letter} {ids : Nat → String} {agent : String} :
    (l.envelope ids).isFor agent = true ↔ l.IsMeantFor agent := by
  unfold Letter.IsMeantFor Envelope.isFor Letter.envelope Letter.destination
  cases hbroadcast : l.isBroadcast with
  | true => simp
  | false =>
    -- a letter to everyone is a broadcast whatever its type
    have hrecipient : l.recipient ≠ everyone := by
      intro h
      simp [Letter.isBroadcast, h] at hbroadcast
    simp [hrecipient]

section

variable {agent line : String} {e : Envelope} {lines : List String}
  {pulled : List (Envelope × String)}

/-- What is for the agent among what was handed over has come from the line, or from another one. -/
theorem mem_arrivals_cases (hdecode : Envelope.decode? line = some e)
    (hpulled : pulled.map Prod.fst = lines.filterMap Envelope.decode?)
    {m : Message} (hm : m ∈ arrivals agent pulled) :
    (e.isFor agent = true ∧ ∃ time, m = e.arrived time) ∨
      ∃ other ∈ lines, other ≠ line ∧ ∃ x, Envelope.decode? other = some x ∧
        x.isFor agent = true ∧ x.id = m.id := by
  obtain ⟨x, time, hx, hfor, rfl⟩ := mem_arrivals.1 hm
  have hin : x ∈ lines.filterMap Envelope.decode? := by
    rw [← hpulled]
    exact List.mem_map_of_mem hx
  obtain ⟨other, hother, hread⟩ := List.mem_filterMap.1 hin
  by_cases heq : other = line
  · subst heq
    obtain rfl := Option.some.inj (hread.symm.trans hdecode)
    exact .inl ⟨hfor, time, rfl⟩
  · exact .inr ⟨other, hother, heq, x, hread, hfor, rfl⟩

theorem exists_mem_arrivals (hdecode : Envelope.decode? line = some e) (hline : line ∈ lines)
    (hpulled : pulled.map Prod.fst = lines.filterMap Envelope.decode?)
    (hfor : e.isFor agent = true) : ∃ time, e.arrived time ∈ arrivals agent pulled := by
  have hin : e ∈ pulled.map Prod.fst := by
    rw [hpulled]
    exact List.mem_filterMap.2 ⟨line, hline, hdecode⟩
  obtain ⟨⟨x, time⟩, hx, rfl⟩ := List.mem_map.1 hin
  exact ⟨time, mem_arrivals.2 ⟨x, time, hx, hfor, rfl⟩⟩

end

/-! ### Listing the new row -/

/-- When messages come in, a new unread one for the agent is listed, if the inbox could be listed
before. -/
theorem exists_check_append {s s' : Store} {agent : String} {ms : List Message} {m : Message}
    (hrows : s'.messages = s.messages ++ ms.map Message.row) (hm : m ∈ ms)
    (hfor : m.row.isFor agent = true) (hunread : m.status = .unread) :
    (∃ inbox, s.check agent false = .ok inbox) ↔
      ∃ inbox, s'.check agent false = .ok inbox ∧ ∃ m' ∈ inbox.messages, m'.row = m.row := by
  have hlisted : m.row ∈ s'.inboxRows agent false := by
    refine mem_inboxRows.2 ⟨?_, hfor, ?_⟩
    · rw [hrows]
      exact List.mem_append_right _ (List.mem_map_of_mem hm)
    · simp [MessageRow.has, Message.row, hunread, MessageStatus.name]
  constructor
  · intro h
    -- an old row stands for a message because the inbox could be listed, a new one by itself
    have hafter : ∃ inbox, s'.check agent false = .ok inbox := by
      refine exists_check.2 fun r hr => ?_
      obtain ⟨hin, hshown⟩ := mem_inboxRows.1 hr
      rw [hrows] at hin
      rcases List.mem_append.1 hin with hold | hnew
      · exact exists_check.1 h r (mem_inboxRows.2 ⟨hold, hshown⟩)
      · obtain ⟨n, -, rfl⟩ := List.mem_map.1 hnew
        exact ⟨n, toMessage_row n⟩
    obtain ⟨inbox, hinbox⟩ := hafter
    exact ⟨inbox, hinbox, m, (mem_of_check hinbox m).2 ⟨m.row, hlisted, toMessage_row m⟩, rfl⟩
  · rintro ⟨inbox, hinbox, -⟩
    refine exists_check.2 fun r hr => exists_check.1 ⟨inbox, hinbox⟩ r ?_
    obtain ⟨hold, hshown⟩ := mem_inboxRows.1 hr
    exact mem_inboxRows.2 ⟨by rw [hrows]; exact List.mem_append_left _ hold, hshown⟩

/-! ### Delivery -/

/-- The row that is stored for an envelope of a letter. -/
theorem row_arrived_envelope (l : Letter) (ids : Nat → String) (time arrival recipient : String)
    (hsingle : l.isBroadcast = false → recipient = l.recipient) :
    ((l.envelope ids).arrived arrival).row =
      (l.message time (ids 0) recipient).row.relayed l.isBroadcast arrival := by
  unfold Letter.envelope Letter.destination Envelope.arrived MessageRow.relayed Letter.message
    Message.row
  cases hbroadcast : l.isBroadcast with
  | true => rfl
  | false => simp [hsingle hbroadcast]

section

variable {l : Letter} {ids : Nat → String} {line recipient : String} (time : String)
  (hdecode : Envelope.decode? line = some (l.envelope ids))
  (hsingle : l.isBroadcast = false → recipient = l.recipient)

include hdecode hsingle

theorem received_of_decode : Reaches line l (l.message time (ids 0) recipient).row := by
  intro τ b selector times s w lines hnew hpulled hline hothers
  have hfresh : ids 0 ∉ s.ids := Store.holds_eq_false_iff.1 hnew
  rw [b.receive_eq]
  generalize harrivals : arrivals b.identity.agentId (pullAll times (b.visited selector) w).1 = ms
  -- whatever comes in under the id of the letter has come from its line
  have hfrom : ∀ m ∈ ms, m.id = ids 0 → (l.envelope ids).isFor b.identity.agentId = true ∧
      ∃ arrival, m = (l.envelope ids).arrived arrival := by
    intro m hm hid
    rw [← harrivals] at hm
    rcases mem_arrivals_cases hdecode hpulled hm with h | ⟨other, hother, hne, x, hx, hfor, hxid⟩
    · exact h
    · exact absurd (hxid.trans hid) (hothers other hother hne x hx hfor)
  refine ⟨?_, fun hmeant => ?_, fun hmeant => ?_⟩
  · obtain ⟨ns, hadds, -⟩ := Store.adds_takeIn s ms
    exact ⟨_, hadds.messages.symm⟩
  · obtain ⟨first, hfirst⟩ :=
      exists_mem_arrivals hdecode hline hpulled (isFor_envelope.2 hmeant)
    rw [harrivals] at hfirst
    obtain ⟨ns, hadds, hsub, n, hn, hid⟩ := Store.exists_adds_takeIn hfresh hfirst
    obtain ⟨hfor, arrival, rfl⟩ := hfrom n (hsub.subset hn) hid
    refine ⟨arrival, ?_⟩
    rw [← row_arrived_envelope l ids time arrival recipient hsingle]
    exact ⟨hadds.filter_id hn, exists_check_append hadds.messages hn hfor rfl⟩
  · refine Store.holds_eq_false_iff.2 fun hid => ?_
    rcases Store.mem_ids_takeIn.1 hid with hid | ⟨m, hm, hid⟩
    · exact hfresh hid
    · exact hmeant (isFor_envelope.1 (hfrom m hm hid).1)

theorem delivered_of_decode : Carries line l (l.message time (ids 0) recipient).row := by
  intro τ b selector times s w lines hnew hpulled hline hothers
  have hfresh : ids 0 ∉ s.ids := Store.holds_eq_false_iff.1 hnew
  rw [b.receive_eq]
  generalize harrivals : arrivals b.identity.agentId (pullAll times (b.visited selector) w).1 = ms
  -- whatever comes in has come from the line of the letter
  have hfrom : ∀ m ∈ ms, (l.envelope ids).isFor b.identity.agentId = true ∧
      ∃ arrival, m = (l.envelope ids).arrived arrival := by
    intro m hm
    rw [← harrivals] at hm
    rcases mem_arrivals_cases hdecode hpulled hm with h | ⟨other, hother, hne, x, hx, hfor, -⟩
    · exact h
    · exact absurd hfor (by simp [hothers other hother hne x hx])
  refine ⟨fun hmeant => ?_, fun hmeant => ?_⟩
  · obtain ⟨first, hfirst⟩ :=
      exists_mem_arrivals hdecode hline hpulled (isFor_envelope.2 hmeant)
    rw [harrivals] at hfirst
    obtain ⟨m, rest, rfl⟩ := List.exists_cons_of_ne_nil (List.ne_nil_of_mem hfirst)
    obtain ⟨hfor, arrival, rfl⟩ := hfrom m List.mem_cons_self
    -- if the line was handed over several times, the later copies find the id taken
    have hcopies : ∀ n ∈ rest, n.id = ((l.envelope ids).arrived arrival).id := by
      intro n hn
      obtain ⟨-, _, rfl⟩ := hfrom n (List.mem_cons_of_mem _ hn)
      rfl
    refine ⟨arrival, ?_⟩
    rw [← row_arrived_envelope l ids time arrival recipient hsingle,
      Store.takeIn_of_fresh hfresh hcopies]
    exact ⟨rfl, exists_check_append rfl (List.mem_singleton_self _) hfor rfl⟩
  · have hnone : ms = [] :=
      List.eq_nil_iff_forall_not_mem.2 fun m hm => hmeant (isFor_envelope.1 (hfrom m hm).1)
    rw [hnone]
    rfl

end

/-- What a mailbox with an id sends is the letter of its draft. The first row is stored right behind
those that were there, and the line that is relayed is read as the letter's envelope. -/
theorem exists_line_of_send {σ : Type} {a : Mailbox σ} {d : Draft} {time : String}
    {millis random : Nat → Nat} {s s' : Store} {w w' : σ} {sent : Sent}
    (hself : a.identity.agentId ≠ "")
    (hsend : a.send d time (fun i => messageId (millis i) (random i)) s w = (.ok sent, s', w')) :
    ∃ l line ids recipient, d.check a.identity.agentId a.selector = .ok l ∧
      s'.messages[s.messages.length]? = some (l.message time (ids 0) recipient).row ∧
      sent.ids.head? = some (ids 0) ∧
      (sent.relays, w') = relayAll line (a.registry.resolve l.selector) w ∧
      Envelope.decode? line = some (l.envelope ids) ∧
      (l.isBroadcast = false → recipient = l.recipient) := by
  rcases post_cases a d time (fun i => messageId (millis i) (random i)) s with ⟨e, hpost⟩ |
    ⟨l, stored, hcheck, hstored, hpost⟩
  · rw [Mailbox.send, hpost] at hsend
    exact absurd (Prod.mk.inj hsend).1 (by simp)
  · rw [send_of_post hpost] at hsend
    obtain ⟨hsent, hrest⟩ := Prod.mk.inj hsend
    obtain ⟨rfl, rfl⟩ := Prod.mk.inj hrest
    obtain rfl := Except.ok.inj hsent
    obtain ⟨recipient, rest, hms, hsingle⟩ := messages_eq_cons l s time
      fun i => messageId (millis i) (random i)
    have hrows := (adds_transact hstored).messages
    rw [hms] at hrows ⊢
    refine ⟨l, (l.envelope fun i => messageId (millis i) (random i)).encode, _, recipient, hcheck,
      ?_, rfl, rfl, Envelope.decode?_encode
        (plain_envelope (sound_of_check hself hcheck) millis random), hsingle⟩
    rw [hrows]
    simp

section

variable {σ : Type} {a : Mailbox σ} {d : Draft} {time : String} {millis random : Nat → Nat}
  {s s' : Store} {w w' : σ} {sent : Sent}

/-- A letter that a mailbox with an id sends is stored there, and relayed in a line that brings it
to every mailbox that it is meant for, whatever else comes there. -/
theorem letter_is_received (hself : a.identity.agentId ≠ "")
    (hsend : a.send d time (fun i => messageId (millis i) (random i)) s w = (.ok sent, s', w')) :
    ∃ l line row, d.check a.identity.agentId a.selector = .ok l ∧
      s'.messages[s.messages.length]? = some row ∧ sent.ids.head? = some row.id ∧
      (sent.relays, w') = relayAll line (a.registry.resolve l.selector) w ∧
      Reaches line l row := by
  obtain ⟨l, line, ids, recipient, hcheck, hrow, hid, hrelays, hdecode, hsingle⟩ :=
    exists_line_of_send hself hsend
  exact ⟨l, line, _, hcheck, hrow, hid, hrelays, received_of_decode time hdecode hsingle⟩

/-- A letter that a mailbox with an id sends is stored there, and relayed in a line that
carries it to every mailbox that it is meant for. -/
theorem letter_is_delivered (hself : a.identity.agentId ≠ "")
    (hsend : a.send d time (fun i => messageId (millis i) (random i)) s w = (.ok sent, s', w')) :
    ∃ l line row, d.check a.identity.agentId a.selector = .ok l ∧
      s'.messages[s.messages.length]? = some row ∧ sent.ids.head? = some row.id ∧
      (sent.relays, w') = relayAll line (a.registry.resolve l.selector) w ∧
      Carries line l row := by
  obtain ⟨l, line, ids, recipient, hcheck, hrow, hid, hrelays, hdecode, hsingle⟩ :=
    exists_line_of_send hself hsend
  exact ⟨l, line, _, hcheck, hrow, hid, hrelays, delivered_of_decode time hdecode hsingle⟩

end

/-! ### Two machines -/

/-- A mailbox whose channel shares a room with others. -/
def inHall (agent : String) : Mailbox Surroundings where
  identity := ⟨agent, none, none⟩
  registry := .register .empty (stream { StreamSettings.plain "wire" with
    channel := agent, room := some "hall" })
  selector := .all
  file := none

/-- A request to the agent `b`. -/
def helloToB : Draft := ⟨some "b", some "request", some "hello", none, none, none, none⟩

/-- The agent `a` sends the request. -/
def sendHello : Except Error Sent × Store × Surroundings :=
  (inHall "a").send helloToB "2025-01-01T00:00:00.000Z" (fun i => messageId 0 i) .empty .bare

/-- The store of the agent `b` after a pass, when the request has been sent. -/
def helloReceived (s : Store) : Store :=
  ((inHall "b").receive none (fun _ => "2025-01-02T00:00:00.000Z") s sendHello.2.2).2.1

theorem letter_is_delivered_hello :
    (helloReceived .empty).messages.map (·.id) = [messageId 0 0] ∧
      ∃ sent, sendHello.1 = .ok sent ∧
        ∃ l line row, helloToB.check "a" .all = .ok l ∧
          sendHello.2.1.messages[0]? = some row ∧ sent.ids.head? = some row.id ∧
          (sent.relays, sendHello.2.2) =
            relayAll line ((inHall "a").registry.resolve l.selector) .bare ∧
          Carries line l row := by
  have hsend : sendHello = (.ok _, _, _) := rfl
  exact ⟨by decide +kernel, _, rfl, letter_is_delivered (a := inHall "a") (by decide) hsend⟩

/-- A row of a type that is not known. -/
def memoRow : MessageRow :=
  ⟨"old", "x", "b", "memo", "normal", "none", "text", "unread", "2024-01-01T00:00:00.000Z", none,
    none⟩

/-- Beside a row that stands for no message the request is stored, but not listed. -/
theorem hello_not_listed_beside_memo :
    sendHello.1.toOption.map (·.ids) = some [messageId 0 0] ∧
      Store.holds ⟨[memoRow], [], 2⟩ (messageId 0 0) = false ∧
      (helloReceived ⟨[memoRow], [], 2⟩).messages.map (·.id) = ["old", messageId 0 0] ∧
      ∀ inbox, (inHall "b").check none false (helloReceived ⟨[memoRow], [], 2⟩) ≠ .ok inbox := by
  refine ⟨by decide +kernel, by decide +kernel, by decide +kernel, fun inbox hinbox => ?_⟩
  have hshown : memoRow ∈ (helloReceived ⟨[memoRow], [], 2⟩).inboxRows "b" false :=
    mem_inboxRows.2 (by decide +kernel)
  have hmemo : memoRow.toMessage = .error (.badColumn 3 (.unknownMessageType "memo")) := rfl
  obtain ⟨m, hm⟩ := exists_check.1 ⟨inbox, hinbox⟩ memoRow hshown
  rw [hmemo] at hm
  exact absurd hm (by simp)

end Mailroom
