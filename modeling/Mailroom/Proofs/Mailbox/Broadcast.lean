/-
Whom a broadcast reaches.

A broadcast is stored once for each of the other active agents, or once for everyone if
there is none. No roster names everyone, and no roster names an agent twice, so nobody finds
it twice in the inbox and nobody else finds it.

* `Store.HasOther` — the agents that a broadcast of a sender is for;
* `Broadcast` — what a broadcast adds to a store, and what each unread inbox gains;
* `broadcast_messages` — so it is with the messages of every broadcast letter;
* `EchoOf` — what is relayed: one line at most for each transport, of an envelope that the
  store knows when it comes back;
* `broadcast_reaches_each_once` — sending a broadcast.
-/
import Mailroom.Mailbox.Arrival
import Mailroom.Proofs.EnvelopeReading
import Mailroom.Proofs.Mailbox.Inboxes
import Mailroom.Proofs.Mailbox.Letters
import Mailroom.Proofs.Store.RosterHistory
import Mailroom.Proofs.Transport.Relaying

namespace Mailroom

variable {σ : Type}

/-! ### The messages of a letter -/

namespace Letter

variable {l : Letter} {s : Store} {time : String} {ids : Nat → String}

theorem map_recipient_messages :
    (l.messages s time ids).map (·.recipient) = l.recipients s := by
  refine List.ext_getElem ?_ fun i _ _ => ?_
  · rw [List.length_map, messages, List.length_mapIdx]
  · simp only [messages, message, List.getElem_map, List.getElem_mapIdx]

theorem eq_message_of_mem {m : Message} (h : m ∈ l.messages s time ids) :
    m = l.message time m.id m.recipient := by
  obtain ⟨i, hi, rfl⟩ := List.mem_mapIdx.1 h
  rfl

theorem isBroadcast_iff : l.isBroadcast = true ↔ l.recipient = everyone ∨ l.type = .broadcast := by
  rw [isBroadcast, Bool.or_eq_true, beq_iff_eq, beq_iff_eq]

theorem recipients_of_others (hl : l.isBroadcast = true) (hothers : s.activeExcept l.sender ≠ []) :
    l.recipients s = s.activeExcept l.sender := by
  rw [recipients, if_pos hl]
  split
  · rename_i hnone
    exact absurd hnone hothers
  · rfl

theorem recipients_of_none (hl : l.isBroadcast = true) (hnone : s.activeExcept l.sender = []) :
    l.recipients s = [everyone] := by
  rw [recipients, if_pos hl, hnone]

theorem messages_of_none (hl : l.isBroadcast = true) (hnone : s.activeExcept l.sender = []) :
    l.messages s time ids = [l.message time (ids 0) everyone] := by
  rw [messages, recipients_of_none hl hnone]
  rfl

theorem mem_recipients_iff {x : String} :
    x ∈ l.recipients s ↔ ∃ m ∈ l.messages s time ids, m.recipient = x := by
  rw [← map_recipient_messages, List.mem_map]

end Letter

/-! ### What each inbox gains -/

/-- Of messages with different recipients, none of them everyone, each recipient is meant by
one. -/
theorem filter_isFor_eq_singleton {ms : List Message} (hdistinct : (ms.map (·.recipient)).Nodup)
    (heveryone : ∀ m ∈ ms, m.recipient ≠ everyone) {m : Message} (hm : m ∈ ms) :
    ms.filter (·.row.isFor m.recipient) = [m] := by
  have hfor : ∀ n ∈ ms, n.row.isFor m.recipient = (n == m) := by
    intro n hn
    rw [Bool.eq_iff_iff, isFor_row, beq_iff_eq]
    constructor
    · rintro (h | h)
      · exact List.inj_on_of_nodup_map hdistinct hn hm h
      · exact absurd h (heveryone n hn)
    · rintro rfl
      exact .inl rfl
  exact filter_eq_singleton (List.Nodup.of_map _ hdistinct) hm hfor

/-- The agents other than the sender that are active on the roster. -/
def Store.HasOther (s : Store) (sender x : String) : Prop :=
  x ≠ sender ∧ ∃ r ∈ s.roster, r.isActive = true ∧ r.id = x

theorem hasOther_iff {s : Store} {sender x : String} :
    s.HasOther sender x ↔ x ∈ s.activeExcept sender :=
  Store.mem_activeExcept.symm

section

variable {l : Letter} {s s' : Store} {time : String} {ids : Nat → String}

theorem pairwise_recipients (hs : s.RosterSound) (hl : l.isBroadcast = true) :
    (l.recipients s).Pairwise (· < ·) := by
  by_cases hnone : s.activeExcept l.sender = []
  · rw [Letter.recipients_of_none hl hnone]
    exact List.pairwise_singleton ..
  · rw [Letter.recipients_of_others hl hnone]
    exact Store.pairwise_activeExcept hs l.sender

theorem gains_messages
    (hrows : s'.messages = s.messages ++ (l.messages s time ids).map Message.row) (x : String) :
    Gains s s' x ((l.messages s time ids).filter (·.row.isFor x)) := by
  refine gains_of_append hrows (fun m hm => ?_) x
  rw [Letter.eq_message_of_mem hm]
  rfl

/-- Where no other agent is active, everybody gains the one message. -/
theorem gains_of_none (hl : l.isBroadcast = true) (hnone : s.activeExcept l.sender = [])
    (hrows : s'.messages = s.messages ++ (l.messages s time ids).map Message.row) (x : String) :
    Gains s s' x [l.message time (ids 0) everyone] := by
  have hfor : (l.message time (ids 0) everyone).row.isFor x = true := isFor_row.2 (.inr rfl)
  have h := gains_messages hrows x
  rw [Letter.messages_of_none hl hnone, List.filter_cons, if_pos hfor] at h
  exact h

variable (hs : s.RosterSound) (hl : l.isBroadcast = true) (hsome : s.activeExcept l.sender ≠ [])
  (hrows : s'.messages = s.messages ++ (l.messages s time ids).map Message.row)

include hs hl hsome

theorem recipient_ne_everyone {m : Message} (hm : m ∈ l.messages s time ids) :
    m.recipient ≠ everyone := by
  intro heq
  refine Store.everyone_not_mem_activeExcept hs l.sender ?_
  rw [← Letter.recipients_of_others hl hsome, ← heq]
  exact Letter.mem_recipients_iff.2 ⟨m, hm, rfl⟩

include hrows

/-- Where others are active, each recipient gains its own message. -/
theorem gains_of_mem {m : Message} (hm : m ∈ l.messages s time ids) :
    Gains s s' m.recipient [m] := by
  have hdistinct : ((l.messages s time ids).map (·.recipient)).Nodup := by
    rw [Letter.map_recipient_messages]
    exact (pairwise_recipients hs hl).imp ne_of_lt
  rw [← filter_isFor_eq_singleton hdistinct
    (fun n hn => recipient_ne_everyone hs hl hsome hn) hm]
  exact gains_messages hrows m.recipient

/-- Where others are active, nobody else gains anything. -/
theorem gains_of_not_mem {x : String} (hx : ∀ m ∈ l.messages s time ids, m.recipient ≠ x) :
    Gains s s' x [] := by
  have hfilter : (l.messages s time ids).filter (·.row.isFor x) = [] := by
    refine List.filter_eq_nil_iff.2 fun m hm hfor => ?_
    rcases isFor_row.1 hfor with heq | heq
    · exact hx m hm heq
    · exact recipient_ne_everyone hs hl hsome hm heq
  rw [← hfilter]
  exact gains_messages hrows x

end

/-- What becomes of a broadcast letter in a store: it is added once for every other active
agent, and that agent alone gains it; or if there is none, it is added once for everyone, and
everybody gains it. -/
structure Broadcast (l : Letter) (time : String) (s s' : Store) (ms : List Message) : Prop where
  rows : s'.messages = s.messages ++ ms.map Message.row
  roster : s'.roster = s.roster
  alike : ∀ m ∈ ms, m = l.message time m.id m.recipient
  ordered : (ms.map (·.recipient)).Pairwise (· < ·)
  toOthers : (∃ x, s.HasOther l.sender x) → ∀ x,
    (s.HasOther l.sender x → ∃ m ∈ ms, m.recipient = x ∧ Gains s s' x [m]) ∧
      (¬ s.HasOther l.sender x → (∀ m ∈ ms, m.recipient ≠ x) ∧ Gains s s' x [])
  toEveryone : (¬ ∃ x, s.HasOther l.sender x) →
    ∃ m, ms = [m] ∧ m.recipient = everyone ∧ ∀ x, Gains s s' x [m]

theorem broadcast_messages {l : Letter} {s s' : Store} {time : String} {ids : Nat → String}
    (hs : s.RosterSound) (hl : l.isBroadcast = true)
    (hrows : s'.messages = s.messages ++ (l.messages s time ids).map Message.row)
    (hroster : s'.roster = s.roster) : Broadcast l time s s' (l.messages s time ids) where
  rows := hrows
  roster := hroster
  alike := fun m hm => Letter.eq_message_of_mem hm
  ordered := by
    rw [Letter.map_recipient_messages]
    exact pairwise_recipients hs hl
  toOthers := by
    rintro ⟨y, hy⟩ x
    have hsome : s.activeExcept l.sender ≠ [] := List.ne_nil_of_mem (hasOther_iff.1 hy)
    have hothers : s.HasOther l.sender x ↔ ∃ m ∈ l.messages s time ids, m.recipient = x := by
      rw [← Letter.mem_recipients_iff, Letter.recipients_of_others hl hsome]
      exact hasOther_iff
    refine ⟨fun hx => ?_, fun hx => ?_⟩
    · obtain ⟨m, hm, rfl⟩ := hothers.1 hx
      exact ⟨m, hm, rfl, gains_of_mem hs hl hsome hrows hm⟩
    · have hnot : ∀ m ∈ l.messages s time ids, m.recipient ≠ x :=
        fun m hm heq => hx (hothers.2 ⟨m, hm, heq⟩)
      exact ⟨hnot, gains_of_not_mem hs hl hsome hrows hnot⟩
  toEveryone := by
    intro hnobody
    have hnone : s.activeExcept l.sender = [] := by
      refine List.eq_nil_iff_forall_not_mem.2 fun x hx => ?_
      exact hnobody ⟨x, hasOther_iff.2 hx⟩
    exact ⟨_, Letter.messages_of_none hl hnone, rfl, fun x => gains_of_none hl hnone hrows x⟩

/-! ### Sending a broadcast -/

/-- What the transports are given when a broadcast is relayed: each of them one line at most,
and the line is that of an envelope for everyone under this id, which the store passes over
when it comes back. -/
structure EchoOf (id : String) (s : Store) (notes : List (String × String)) : Prop where
  once : (notes.map Prod.fst).Nodup
  line : ∃ e : Envelope, e.recipient = everyone ∧ e.id = id ∧
    (∀ note ∈ notes, note.2 = e.encode) ∧
    (∀ e', Envelope.decode? e.encode = some e' → e' = e) ∧
    ∀ time, Mailbox.ingest e time s = (s, false)

theorem ingest_of_mem_ids {e : Envelope} {s : Store} (h : e.id ∈ s.ids) (time : String) :
    Mailbox.ingest e time s = (s, false) := by
  have hheld : s.holds (e.arrived time).id = true := Store.holds_iff.2 h
  rw [Mailbox.ingest, Store.ingest, if_pos hheld]

theorem echoOf_givenAll {l : Letter} {ids : Nat → String} {r : Registry σ} {s : Store}
    (hl : l.isBroadcast = true) (hr : r.Ordered) (hheld : ids 0 ∈ s.ids) (w : σ) :
    EchoOf (ids 0) s (givenAll (l.envelope ids).encode (r.resolve l.selector) w) where
  once := Registry.nodup_givenAll hr _ _ w
  line := by
    refine ⟨l.envelope ids, ?_, rfl, ?_, fun e' h => Envelope.eq_of_decode?_encode h,
      ingest_of_mem_ids hheld⟩
    · show l.destination = everyone
      rw [Letter.destination, if_pos hl]
    · intro note hnote
      obtain ⟨t, -, rfl⟩ := List.mem_map.1 ((givenAll_sublist _ _ w).subset hnote)
      rfl

/-- A broadcast is sent: it is stored, reaches the inbox of each other active agent exactly
once and no other inbox, and comes back unnoticed. -/
theorem broadcast_reaches_each_once {b : Mailbox σ} {d : Draft} {l : Letter} {s : Store}
    {time : String} {ids : Nat → String} {calls : List (RosterCall σ)} {ts : List (Transport σ)}
    (hroster : s.roster = (RosterCall.run .empty calls).roster)
    (hregistry : b.registry = ts.foldl .register .empty)
    (hcheck : d.check b.identity.agentId b.selector = .ok l)
    (hbroadcast : l.recipient = everyone ∨ l.type = .broadcast)
    (hdistinct : ((l.messages s time ids).map (·.id)).Nodup)
    (hfresh : ∀ m ∈ l.messages s time ids, m.id ∉ s.ids) (w : σ) :
    ∃ m rest s' relays w' notes, l.messages s time ids = m :: rest ∧
      b.send d time ids s w = (.ok ⟨(m :: rest).map (·.id), relays⟩, s', w') ∧
      b.noting.send d time ids s (w, []) =
        (.ok ⟨(m :: rest).map (·.id), relays⟩, s', w', notes) ∧
      Broadcast l time s s' (m :: rest) ∧ EchoOf m.id s' notes := by
  have hl : l.isBroadcast = true := Letter.isBroadcast_iff.2 hbroadcast
  have hs : s.RosterSound := (rosterSound_run rosterSound_empty calls).of_roster_eq hroster
  have hr : b.registry.Ordered := by
    rw [hregistry]
    exact Registry.ordered_foldl_register Registry.ordered_empty ts
  have hpost := post_of_transact hcheck (transact_of_fresh hdistinct hfresh)
  have hadds : Broadcast l time s (s.followedBy (l.messages s time ids)) (l.messages s time ids) :=
    broadcast_messages hs hl rfl rfl
  have hids := (Adds.followedBy hdistinct hfresh).ids_eq
  have hsend := send_of_post hpost w
  have hnoting := send_noting hpost w []
  rw [hsend] at hnoting
  -- the first message has the id that the envelope has
  obtain ⟨recipient, rest, hmessages, -⟩ := messages_eq_cons l s time ids
  have hheld : ids 0 ∈ (s.followedBy (l.messages s time ids)).ids := by
    rw [hids, hmessages]
    exact List.mem_append_right _ List.mem_cons_self
  rw [hmessages] at hsend hnoting hadds hheld
  exact ⟨_, rest, _, _, _, _, hmessages, hsend, hnoting, hadds, echoOf_givenAll hl hr hheld w⟩

/-- A mailbox with one transport, which takes every line. -/
def onWire (agent : String) : Mailbox Unit where
  identity := ⟨agent, none, none⟩
  registry := [{ localTransport Unit with name := "wire", isNetwork := true }].foldl .register .empty
  selector := .all
  file := none

/-- The agents `a`, `b` and `c` join, and `c` leaves again. -/
def crewCalls : List (RosterCall Unit) :=
  [.register (onWire "b") ⟨none, none, none, none⟩ "2025-01-01T00:00:00.000Z",
    .register (onWire "c") ⟨none, none, none, none⟩ "2025-01-01T00:00:00.000Z",
    .register (onWire "a") ⟨none, none, none, none⟩ "2025-01-01T00:00:00.000Z",
    .deregister (onWire "c") none "2025-01-02T00:00:00.000Z"]

/-- The store of the three agents. -/
def crewStore : Store := RosterCall.run .empty crewCalls

/-- A broadcast that `a` writes and that names `c`. -/
def newsDraft : Draft := ⟨some "c", some "broadcast", some "news", none, none, none, none⟩

/-- The letter of this broadcast. -/
def newsLetter : Letter := ⟨"c", "a", .broadcast, .normal, noConvoy, "news", .all⟩

/-- What `a` stores of it. -/
def newsMessages : List Message :=
  newsLetter.messages crewStore "2025-01-03T00:00:00.000Z" (messageId 0)

theorem activeExcept_crewStore : crewStore.activeExcept newsLetter.sender = ["b"] := by
  decide +kernel

theorem newsMessages_eq :
    newsMessages = [newsLetter.message "2025-01-03T00:00:00.000Z" (messageId 0 0) "b"] := by
  have hsome : crewStore.activeExcept newsLetter.sender ≠ [] := by
    rw [activeExcept_crewStore]
    exact List.cons_ne_nil _ _
  rw [newsMessages, Letter.messages, Letter.recipients_of_others rfl hsome,
    activeExcept_crewStore]
  rfl

/-- The agent `b` gains the broadcast, and neither `a` nor `c` does. -/
theorem broadcast_reaches_each_once_crew :
    newsDraft.check "a" .all = .ok newsLetter ∧ (newsMessages.map (·.id)).Nodup ∧
      (∀ m ∈ newsMessages, m.id ∉ crewStore.ids) ∧
      ∃ m s' notes, newsMessages = [m] ∧ m.recipient = "b" ∧ Gains crewStore s' "b" [m] ∧
        Gains crewStore s' "a" [] ∧ Gains crewStore s' "c" [] ∧ EchoOf m.id s' notes := by
  have hcheck : newsDraft.check "a" .all = .ok newsLetter := rfl
  have hroster : crewStore.roster = (RosterCall.run .empty crewCalls).roster := rfl
  have hdistinct : (newsMessages.map (·.id)).Nodup := by
    rw [newsMessages_eq]
    exact List.nodup_singleton _
  have hfresh : ∀ m ∈ newsMessages, m.id ∉ crewStore.ids := fun m _ => List.not_mem_nil
  obtain ⟨m, rest, s', relays, w', notes, hms, -, -, hbroadcast, hecho⟩ :=
    broadcast_reaches_each_once (b := onWire "a") hroster rfl hcheck (.inr rfl) hdistinct hfresh ()
  have hothers : ∀ x, crewStore.HasOther newsLetter.sender x ↔ x = "b" := by
    intro x
    rw [← List.mem_singleton, ← activeExcept_crewStore]
    exact hasOther_iff
  have hb := hbroadcast.toOthers ⟨"b", (hothers "b").2 rfl⟩
  obtain ⟨hm, rfl⟩ := List.cons.inj (hms.symm.trans newsMessages_eq)
  obtain ⟨n, hn, hrecipient, hgains⟩ := (hb "b").1 ((hothers "b").2 rfl)
  obtain rfl := List.mem_singleton.1 hn
  have ha := (hb "a").2 fun h => absurd ((hothers "a").1 h) (by decide)
  have hc := (hb "c").2 fun h => absurd ((hothers "c").1 h) (by decide)
  exact ⟨hcheck, hdistinct, hfresh, n, s', notes, hms, hrecipient, hgains, ha.2, hc.2, hecho⟩

end Mailroom
