/-
What several machines say of one message.

Machines have a store each and work on one room. In any order they send letters under fresh
ids, receive, and do in their stores what brings no message in; lines in the room may come
again or be lost, positions may move, and transports may fail. A store then holds what was
sent: a broadcast has many rows at its sender's, and elsewhere it has one, for everyone, under
the id of the first of them.

* `MessageRow.bare` — what a row says of its message, apart from its fate in the store;
* `Network`, `Network.Step` — machines with what was sent so far, and what can happen;
* `Post.Explains`, `Accounted` — a letter that was sent accounts for a row, and letters for a
  store;
* `Network.Consistent` — every line and every row has its letter, and every id one letter;
* `consistent_step`, `consistent_run` — so it stays;
* `stores_agree` — rows of one id in any two stores.
-/
import Mailroom.Proofs.Mailbox.Broadcast
import Mailroom.Proofs.Mailbox.Delivery
import Mailroom.Proofs.Mailbox.Histories
import Mailroom.Proofs.Transport.SharedRoom
import Mathlib.Data.List.Pairwise
import Mathlib.Logic.Relation

namespace Mailroom

variable {ι σ : Type} {room : σ → List String}

/-! ### Rows without their fate -/

/-- A row without its status and its times. -/
def MessageRow.bare (r : MessageRow) : MessageRow :=
  { r with status := "", createdAt := "", readAt := none, archivedAt := none }

/-- An operation that brings no message into a store. -/
def Operation.IsHousekeeping : Operation σ → Prop
  | send .. | ingest .. | receive .. | takeOver .. => False
  | _ => True

theorem map_bare_updateWhere (s : Store) (p : MessageRow → Bool) {f : MessageRow → MessageRow}
    (hf : ∀ r, (f r).bare = r.bare) :
    (s.updateWhere p f).1.messages.map MessageRow.bare = s.messages.map MessageRow.bare := by
  rw [Store.updateWhere, List.map_map]
  refine List.map_congr_left fun r _ => ?_
  show (if p r then f r else r).bare = r.bare
  split
  · exact hf r
  · rfl

/-- Housekeeping may drop rows; what it leaves says what it said. -/
theorem bare_perform {op : Operation σ} (hop : op.IsHousekeeping) (s : Store) :
    ((op.perform s).messages.map MessageRow.bare).Sublist (s.messages.map MessageRow.bare) := by
  cases op with
  | send => exact hop.elim
  | ingest => exact hop.elim
  | receive => exact hop.elim
  | takeOver => exact hop.elim
  | check => exact List.Sublist.refl _
  | pruneReport => exact List.Sublist.refl _
  | read id time =>
    rw [Operation.perform]
    rcases s.read_snd id time with h | h
    · rw [h]
    · rw [h]
      have hsame : (s.markRead id time).1.messages.map MessageRow.bare =
          s.messages.map MessageRow.bare := map_bare_updateWhere s _ fun _ => rfl
      rw [hsame]
  | archive id time =>
    rw [Operation.perform]
    rcases s.archive_snd id time with h | h
    · rw [h]
    · rw [h]
      have hsame : (s.markArchived id time).1.messages.map MessageRow.bare =
          s.messages.map MessageRow.bare := map_bare_updateWhere s _ fun _ => rfl
      rw [hsame]
  | register b r time => rw [Operation.perform, messages_register]
  | deregister b given time => rw [Operation.perform, messages_deregister]
  | prune recorder days now w =>
    rw [Operation.perform]
    rcases prune_snd s recorder days now w with h | ⟨c, -, h⟩
    · rw [h]
    · -- archiving changes no bare row, and deleting drops some
      have hsame : (s.archiveReadBefore c now.stamp).1.messages.map MessageRow.bare =
          s.messages.map MessageRow.bare := map_bare_updateWhere s _ fun _ => rfl
      rw [h, ← hsame]
      exact List.filter_sublist.map MessageRow.bare

/-! ### Machines around a room -/

/-- A letter that was sent: from which machine, under which ids, and what was stored there. -/
structure Post (ι : Type) where
  machine : ι
  letter : Letter
  ids : Nat → String
  messages : List Message

namespace Post

/-- The ids that a letter was stored under. -/
def idList (p : Post ι) : List String := p.messages.map (·.id)

/-- The line that is relayed for a letter. -/
def line (p : Post ι) : String := (p.letter.envelope p.ids).encode

end Post

/-- Machines with their stores, what is around them, and what they have sent. -/
structure Network (ι σ : Type) where
  store : ι → Store
  around : σ
  sent : List (Post ι)

namespace Network

variable [DecidableEq ι]

/-- A mailbox at a machine sends a draft. -/
def send (n : Network ι σ) (i : ι) (b : Mailbox σ) (d : Draft) (time : String)
    (ids : Nat → String) : Network ι σ where
  store := Function.update n.store i (b.send d time ids (n.store i) n.around).2.1
  around := (b.send d time ids (n.store i) n.around).2.2
  sent := n.sent ++
    match (b.post d time ids (n.store i)).1 with
    | .error _ => []
    | .ok (l, ms) => [⟨i, l, ids, ms⟩]

/-- A mailbox at a machine receives. -/
def receive (n : Network ι σ) (i : ι) (b : Mailbox σ) (selector : Option String)
    (times : Nat → String) : Network ι σ where
  store := Function.update n.store i (b.receive selector times (n.store i) n.around).2.1
  around := (b.receive selector times (n.store i) n.around).2.2
  sent := n.sent

/-- An operation in the store of a machine. -/
def keep (n : Network ι σ) (i : ι) (op : Operation σ) : Network ι σ :=
  { n with store := Function.update n.store i (op.perform (n.store i)) }

/-- What can happen next, where `room` gives the lines in the room. -/
inductive Step (room : σ → List String) : Network ι σ → Network ι σ → Prop
  /-- the ids that are drawn for a letter are those of no other one -/
  | send (n : Network ι σ) (i : ι) {b : Mailbox σ} (hb : b.WorksOn room) (d : Draft)
      (time : String) {ids : Nat → String} (hfresh : ∀ p ∈ n.sent, ∀ k, ids k ∉ p.idList) :
      Step room n (n.send i b d time ids)
  | receive (n : Network ι σ) (i : ι) {b : Mailbox σ} (hb : b.WorksOn room)
      (selector : Option String) (times : Nat → String) :
      Step room n (n.receive i b selector times)
  | keep (n : Network ι σ) (i : ι) {op : Operation σ} (hop : op.IsHousekeeping) :
      Step room n (n.keep i op)
  /-- positions move, and lines are repeated or lost, but none is made up -/
  | stir (n : Network ι σ) {w : σ} (hw : room w ⊆ room n.around) :
      Step room n { n with around := w }

/-- Nothing has been stored, said or sent. -/
structure Fresh (room : σ → List String) (n : Network ι σ) : Prop where
  stores : ∀ i, (n.store i).messages = []
  silent : room n.around = []
  unsent : n.sent = []

end Network

/-! ### Letters account for rows -/

/-- A letter that was sent accounts for a row in the store of the machine `i`. -/
structure Post.Explains (p : Post ι) (i : ι) (r : MessageRow) : Prop where
  id : r.id ∈ p.idList
  bare : r.bare = (p.letter.message "" r.id r.recipient).row.bare
  single : p.letter.isBroadcast = false → r.recipient = p.letter.recipient
  relayed : i ≠ p.machine → r.recipient = p.letter.destination

theorem destination_of_single {l : Letter} (h : l.isBroadcast = false) :
    l.destination = l.recipient := by
  rw [Letter.destination, h, if_neg Bool.false_ne_true]

theorem destination_of_broadcast {l : Letter} (h : l.isBroadcast = true) :
    l.destination = everyone := by
  rw [Letter.destination, if_pos h]

namespace Post.Explains

variable {p : Post ι} {i j : ι} {r r' : MessageRow}

theorem of_bare_eq (h : p.Explains i r) (heq : r'.bare = r.bare) : p.Explains i r' := by
  have hid : r'.bare.id = r.bare.id := congrArg MessageRow.id heq
  have hrecipient : r'.bare.recipient = r.bare.recipient := congrArg MessageRow.recipient heq
  -- the id and the recipient of a row are those of the bare row
  change r'.id = r.id at hid
  change r'.recipient = r.recipient at hrecipient
  refine ⟨?_, ?_, ?_, ?_⟩
  · rw [hid]
    exact h.id
  · rw [heq, hid, hrecipient]
    exact h.bare
  · rw [hrecipient]
    exact h.single
  · rw [hrecipient]
    exact h.relayed

/-- The rows of the sender. -/
theorem of_mem_messages {l : Letter} {s : Store} {time : String} {ids : Nat → String} {m : Message}
    (hm : m ∈ l.messages s time ids) :
    Post.Explains ⟨i, l, ids, l.messages s time ids⟩ i m.row where
  id := List.mem_map_of_mem hm
  bare := by
    conv_lhs => rw [Letter.eq_message_of_mem hm]
    rfl
  single := by
    intro hsingle
    have hin : m.recipient ∈ l.recipients s := Letter.mem_recipients_iff.2 ⟨m, hm, rfl⟩
    rw [Letter.recipients, hsingle, if_neg Bool.false_ne_true] at hin
    exact List.mem_singleton.1 hin
  relayed := fun hi => absurd rfl hi

/-- The row of a machine that has read the line. -/
theorem of_arrived (hp : p.ids 0 ∈ p.idList) {e : Envelope}
    (hread : Envelope.decode? p.line = some e) (time : String) :
    p.Explains i (e.arrived time).row := by
  obtain rfl := Envelope.eq_of_decode?_encode hread
  exact ⟨hp, rfl, fun hsingle => destination_of_single hsingle, fun _ => rfl⟩

theorem content (h : p.Explains i r) : r.sender = p.letter.sender ∧
    r.type = p.letter.type.name ∧ r.priority = p.letter.priority.name ∧
    r.convoy = p.letter.convoy ∧ r.payload = p.letter.payload :=
  ⟨congrArg MessageRow.sender h.bare, congrArg MessageRow.type h.bare,
    congrArg MessageRow.priority h.bare, congrArg MessageRow.convoy h.bare,
    congrArg MessageRow.payload h.bare⟩

theorem content_eq (h : p.Explains i r) (h' : p.Explains j r') :
    r.sender = r'.sender ∧ r.type = r'.type ∧ r.priority = r'.priority ∧ r.convoy = r'.convoy ∧
      r.payload = r'.payload := by
  obtain ⟨hsender, htype, hpriority, hconvoy, hpayload⟩ := h.content
  rw [hsender, htype, hpriority, hconvoy, hpayload]
  obtain ⟨hsender', htype', hpriority', hconvoy', hpayload'⟩ := h'.content
  exact ⟨hsender'.symm, htype'.symm, hpriority'.symm, hconvoy'.symm, hpayload'.symm⟩

end Post.Explains

/-- A store of the machine `i` in which no id stands twice and every row has its letter. -/
structure Accounted (sent : List (Post ι)) (i : ι) (s : Store) : Prop where
  nodup : s.ids.Nodup
  explained : ∀ r ∈ s.messages, ∃ p ∈ sent, p.Explains i r

namespace Accounted

variable {sent sent' : List (Post ι)} {i : ι} {s s' : Store}

theorem mono (h : Accounted sent i s) (hsub : sent ⊆ sent') : Accounted sent' i s := by
  refine ⟨h.nodup, fun r hr => ?_⟩
  obtain ⟨p, hp, hexplains⟩ := h.explained r hr
  exact ⟨p, hsub hp, hexplains⟩

theorem adds (h : Accounted sent i s) {ms : List Message} (hadds : Adds s ms s')
    (hms : ∀ m ∈ ms, ∃ p ∈ sent, p.Explains i m.row) : Accounted sent i s' := by
  refine ⟨hadds.nodup_ids h.nodup, fun r hr => ?_⟩
  rw [hadds.messages] at hr
  rcases List.mem_append.1 hr with hr | hr
  · exact h.explained r hr
  · obtain ⟨m, hm, rfl⟩ := List.mem_map.1 hr
    exact hms m hm

theorem keep (h : Accounted sent i s) {op : Operation σ} (hop : op.IsHousekeeping) :
    Accounted sent i (op.perform s) := by
  have hbare := bare_perform hop s
  refine ⟨?_, fun r hr => ?_⟩
  · have hids := hbare.map MessageRow.id
    rw [List.map_map, List.map_map] at hids
    exact hids.nodup h.nodup
  · obtain ⟨r₀, hr₀, heq⟩ := List.mem_map.1 (hbare.subset (List.mem_map_of_mem hr))
    obtain ⟨p, hp, hexplains⟩ := h.explained r₀ hr₀
    exact ⟨p, hp, hexplains.of_bare_eq heq.symm⟩

theorem update [DecidableEq ι] {store : ι → Store} (h : ∀ j, Accounted sent j (store j))
    (hs : Accounted sent i s) (j : ι) : Accounted sent j (Function.update store i s j) := by
  by_cases hj : j = i
  · subst hj
    rw [Function.update_self]
    exact hs
  · rw [Function.update_of_ne hj]
    exact h j

end Accounted

/-! ### What stays true -/

namespace Network

/-- Every line and every row has its letter, and no id belongs to two letters. -/
structure Consistent (room : σ → List String) (n : Network ι σ) : Prop where
  disjoint : n.sent.Pairwise fun p q => p.idList.Disjoint q.idList
  first : ∀ p ∈ n.sent, p.ids 0 ∈ p.idList
  said : ∀ line ∈ room n.around, ∃ p ∈ n.sent, line = p.line
  stores : ∀ i, Accounted n.sent i (n.store i)

theorem Consistent.eq_of_mem {n : Network ι σ} (h : n.Consistent room) {p q : Post ι}
    (hp : p ∈ n.sent) (hq : q ∈ n.sent) {id : String} (hidp : id ∈ p.idList)
    (hidq : id ∈ q.idList) : q = p := by
  by_contra hne
  have hsymm : Std.Symm fun p q : Post ι => p.idList.Disjoint q.idList :=
    ⟨fun _ _ h _ ha hb => h hb ha⟩
  exact h.disjoint.forall hq hp hne hidq hidp

theorem Fresh.consistent {n : Network ι σ} (h : n.Fresh room) : n.Consistent room where
  disjoint := by
    rw [h.unsent]
    exact .nil
  first := by
    rw [h.unsent]
    exact fun p hp => absurd hp List.not_mem_nil
  said := by
    rw [h.silent]
    exact fun line hline => absurd hline List.not_mem_nil
  stores := by
    intro i
    refine ⟨?_, ?_⟩
    · rw [Store.ids, h.stores i]
      exact List.nodup_nil
    · rw [h.stores i]
      exact fun r hr => absurd hr List.not_mem_nil

variable [DecidableEq ι] {n n' : Network ι σ}

/-- A letter under new ids that is stored at a machine, and nothing but whose line may be said. -/
theorem consistent_post (h : n.Consistent room) {i : ι} {l : Letter} {time : String}
    {ids : Nat → String} {s' : Store} {w' : σ}
    (hfresh : ∀ p ∈ n.sent, ∀ k, ids k ∉ p.idList)
    (hadds : Adds (n.store i) (l.messages (n.store i) time ids) s')
    (hsaid : ∀ line ∈ room w', line ∈ room n.around ∨ line = (l.envelope ids).encode) :
    Consistent room ⟨Function.update n.store i s', w',
      n.sent ++ [⟨i, l, ids, l.messages (n.store i) time ids⟩]⟩ := by
  have hold : n.sent ⊆ n.sent ++ [⟨i, l, ids, l.messages (n.store i) time ids⟩] :=
    List.subset_append_left _ _
  have hnew : (⟨i, l, ids, l.messages (n.store i) time ids⟩ : Post ι) ∈
      n.sent ++ [⟨i, l, ids, l.messages (n.store i) time ids⟩] :=
    List.mem_append_right _ (List.mem_singleton_self _)
  refine ⟨?_, ?_, ?_, ?_⟩
  · rw [List.pairwise_append]
    refine ⟨h.disjoint, List.pairwise_singleton .., ?_⟩
    intro p hp q hq id hid hin
    obtain rfl := List.mem_singleton.1 hq
    obtain ⟨m, hm, rfl⟩ := List.mem_map.1 hin
    obtain ⟨k, hk, rfl⟩ := List.mem_mapIdx.1 hm
    exact hfresh p hp k hid
  · intro p hp
    rcases List.mem_append.1 hp with hp | hp
    · exact h.first p hp
    · obtain rfl := List.mem_singleton.1 hp
      obtain ⟨recipient, rest, hms, -⟩ := messages_eq_cons l (n.store i) time ids
      rw [Post.idList, hms]
      exact List.mem_cons_self
  · intro line hline
    rcases hsaid line hline with hline | rfl
    · obtain ⟨p, hp, heq⟩ := h.said line hline
      exact ⟨p, hold hp, heq⟩
    · exact ⟨_, hnew, rfl⟩
  · have hstores := fun j => (h.stores j).mono hold
    refine Accounted.update hstores ((hstores i).adds hadds fun m hm => ?_)
    exact ⟨_, hnew, .of_mem_messages hm⟩

theorem consistent_send (h : n.Consistent room) (i : ι) {b : Mailbox σ} (hb : b.WorksOn room)
    (d : Draft) (time : String) {ids : Nat → String}
    (hfresh : ∀ p ∈ n.sent, ∀ k, ids k ∉ p.idList) : (n.send i b d time ids).Consistent room := by
  rcases post_cases b d time ids (n.store i) with ⟨e, hpost⟩ | ⟨l, stored, -, hstored, hpost⟩
  · -- what is refused is neither stored nor relayed
    have hsame : n.send i b d time ids = n := by
      simp only [send, Mailbox.send, hpost, Function.update_eq_self, List.append_nil]
    rw [hsame]
    exact h
  · simp only [send, send_of_post hpost n.around, hpost]
    refine consistent_post h hfresh (adds_transact hstored) fun line hline => ?_
    exact room_relayAll (hb.resolve l.selector) hline

theorem consistent_receive (h : n.Consistent room) (i : ι) {b : Mailbox σ} (hb : b.WorksOn room)
    (selector : Option String) (times : Nat → String) :
    (n.receive i b selector times).Consistent room := by
  obtain ⟨ms, hadds, hsub⟩ := (n.store i).adds_takeIn
    (arrivals b.identity.agentId (pullAll times (b.visited selector) n.around).1)
  obtain ⟨hroom, hsaid⟩ := said_pullAll times (hb.visited selector) n.around
  simp only [receive, b.receive_eq]
  refine ⟨h.disjoint, h.first, ?_, ?_⟩
  · intro line hline
    exact h.said line (hroom hline)
  · refine Accounted.update h.stores ((h.stores i).adds hadds fun m hm => ?_)
    -- what came in was read from a line of the room, and so from the line of a letter
    obtain ⟨e, time, he, -, rfl⟩ := mem_arrivals.1 (hsub.subset hm)
    obtain ⟨line, hline, hread⟩ := hsaid e time he
    obtain ⟨p, hp, rfl⟩ := h.said line hline
    exact ⟨p, hp, .of_arrived (h.first p hp) hread time⟩

theorem consistent_step (h : n.Consistent room) (hstep : Step room n n') : n'.Consistent room := by
  cases hstep with
  | send i hb d time hfresh => exact consistent_send h i hb d time hfresh
  | receive i hb selector times => exact consistent_receive h i hb selector times
  | keep i hop =>
    exact ⟨h.disjoint, h.first, h.said, Accounted.update h.stores ((h.stores i).keep hop)⟩
  | stir hw =>
    exact ⟨h.disjoint, h.first, fun line hline => h.said line (hw hline), h.stores⟩

theorem consistent_run (h : n.Consistent room) (hrun : Relation.ReflTransGen (Step room) n n') :
    n'.Consistent room := by
  induction hrun with
  | refl => exact h
  | tail _ hstep ih => exact consistent_step ih hstep

/-- A row of the machine `i` and a row of the machine `j` say the same of a message. They differ
in the recipient only if it is a broadcast, and then only at the machine that sent it. -/
structure Agree (n : Network ι σ) (i j : ι) (r r' : MessageRow) : Prop where
  content : r.sender = r'.sender ∧ r.type = r'.type ∧ r.priority = r'.priority ∧
    r.convoy = r'.convoy ∧ r.payload = r'.payload
  recipient : ∃ p ∈ n.sent, r.id ∈ p.idList ∧ (∀ q ∈ n.sent, r.id ∈ q.idList → q = p) ∧
    if p.letter.isBroadcast then
      (i ≠ p.machine → r.recipient = everyone) ∧ (j ≠ p.machine → r'.recipient = everyone)
    else r.recipient = r'.recipient

/-- Whatever machines around a room have done, no store holds two rows of one id, and rows of
one id in any two stores agree. -/
theorem stores_agree {start : Network ι σ} (hstart : start.Fresh room)
    (hrun : Relation.ReflTransGen (Step room) start n) :
    (∀ i, (n.store i).ids.Nodup) ∧
      ∀ i j, ∀ r ∈ (n.store i).messages, ∀ r' ∈ (n.store j).messages, r.id = r'.id →
        n.Agree i j r r' := by
  have h := consistent_run hstart.consistent hrun
  refine ⟨fun i => (h.stores i).nodup, fun i j r hr r' hr' hid => ?_⟩
  obtain ⟨p, hp, hexplains⟩ := (h.stores i).explained r hr
  obtain ⟨q, hq, hexplains'⟩ := (h.stores j).explained r' hr'
  obtain rfl : q = p := by
    refine h.eq_of_mem hp hq hexplains.id ?_
    rw [hid]
    exact hexplains'.id
  refine ⟨hexplains.content_eq hexplains', q, hq, hexplains.id,
    fun q' hq' hin => h.eq_of_mem hq hq' hexplains.id hin, ?_⟩
  split
  · rename_i hbroadcast
    rw [← destination_of_broadcast hbroadcast]
    exact ⟨hexplains.relayed, hexplains'.relayed⟩
  · rename_i hsingle
    have hsingle := Bool.eq_false_of_not_eq_true hsingle
    rw [hexplains.single hsingle, hexplains'.single hsingle]

/-! ### News in the hall -/

/-- Two machines that have not done anything yet. -/
def quietHall : Network (Fin 2) Surroundings := ⟨fun _ => .empty, .bare, []⟩

/-- The first machine knows of the agent `b`. -/
def awareHall : Network (Fin 2) Surroundings :=
  quietHall.keep 0 (.register (inHall "a") ⟨some "b", none, none, none⟩ "2025-01-01T00:00:00.000Z")

/-- The agent `a` sends news to everyone. -/
def tellingHall : Network (Fin 2) Surroundings :=
  awareHall.send 0 (inHall "a")
    ⟨some "all", some "discovery", some "news", none, none, none, none⟩
    "2025-01-01T00:00:01.000Z" fun i => messageId 0 i

/-- The agent `b` receives on the second machine. -/
def newsInHall : Network (Fin 2) Surroundings :=
  tellingHall.receive 1 (inHall "b") none fun _ => "2025-01-02T00:00:00.000Z"

theorem worksOn_inHall (agent : String) : (inHall agent).WorksOn (·.room "hall") := by
  intro t ht
  obtain rfl := List.mem_singleton.1 ht
  exact worksOn_stream rfl

/-- The news has different recipients at the two machines, under one id. -/
theorem stores_agree_newsInHall :
    quietHall.Fresh (·.room "hall") ∧
      Relation.ReflTransGen (Step (·.room "hall")) quietHall newsInHall ∧
      ∃ r ∈ (newsInHall.store 0).messages, ∃ r' ∈ (newsInHall.store 1).messages,
        r.id = r'.id ∧ r.recipient = "b" ∧ r'.recipient = everyone ∧
        newsInHall.Agree 0 1 r r' := by
  have hstart : quietHall.Fresh (·.room "hall") := ⟨fun _ => rfl, rfl, rfl⟩
  have hrun : Relation.ReflTransGen (Step (·.room "hall")) quietHall newsInHall := by
    have hkeep : Step (·.room "hall") quietHall awareHall := .keep quietHall 0 trivial
    have hsend : Step (·.room "hall") awareHall tellingHall :=
      .send awareHall 0 (worksOn_inHall "a") _ _ fun p hp => absurd hp List.not_mem_nil
    have hreceive : Step (·.room "hall") tellingHall newsInHall :=
      .receive tellingHall 1 (worksOn_inHall "b") none _
    exact ((Relation.ReflTransGen.single hkeep).tail hsend).tail hreceive
  have hfound : ∃ r ∈ (newsInHall.store 0).messages, ∃ r' ∈ (newsInHall.store 1).messages,
      r.id = r'.id ∧ r.recipient = "b" ∧ r'.recipient = everyone := by decide +kernel
  obtain ⟨r, hr, r', hr', hid, hrecipient, hrecipient'⟩ := hfound
  exact ⟨hstart, hrun, r, hr, r', hr', hid, hrecipient, hrecipient',
    (stores_agree hstart hrun).2 0 1 r hr r' hr' hid⟩

end Network

end Mailroom
