/-
The order of an inbox.

An inbox lists the more urgent messages first, of equally urgent ones the latest, and of those of
one time the one with the greatest id. Ids are distinct, so this order leaves no choice: what an
inbox lists depends on what is stored and not on how it came in, and the inbox of the unread
messages is a part of the whole inbox.

* `Message.StandsBefore` — the order;
* `MessageRow.place`, `precedes_iff` — the same order on rows, as that of a triple;
* `Store.Lists` — some messages are what an inbox has to list, in its order;
* `Lists.unique` — there is only one such list;
* `lists_of_inbox` — the inbox of a store is such a list;
* `inbox_lists_in_order` — inbox, unread inbox and their sizes, for any order of the rows.
-/
import Mailroom.Proofs.Mailbox.Inboxes
import Mailroom.Proofs.Store.Lifecycle
import Mathlib.Data.Prod.Lex

namespace Mailroom

/-! ### The order of messages -/

/-- How far down the messages of a priority stand. -/
def Priority.rank : Priority → Nat
  | high => 0
  | normal => 1
  | low => 2

/-- A message stands before another one: it is more urgent, or it is as urgent and later, or it is
of the same time and has the greater id. -/
def Message.StandsBefore (m n : Message) : Prop :=
  m.priority.rank < n.priority.rank ∨ m.priority.rank = n.priority.rank ∧
    (n.createdAt < m.createdAt ∨ m.createdAt = n.createdAt ∧ n.id < m.id)

instance (m n : Message) : Decidable (m.StandsBefore n) :=
  inferInstanceAs (Decidable (_ ∨ _ ∧ (_ ∨ _ ∧ _)))

namespace MessageRow

open OrderDual in
/-- The place of a row in an inbox: what decides first stands first, and times and ids go down. -/
def place (r : MessageRow) : ℕ ×ₗ Stringᵒᵈ ×ₗ Stringᵒᵈ :=
  toLex (r.rank, toLex (toDual r.createdAt, toDual r.id))

theorem precedes_iff {a b : MessageRow} : a.precedes b = true ↔ a.place ≤ b.place := by
  simp [precedes, place, Prod.Lex.toLex_le_toLex]

end MessageRow

theorem rank_row (m : Message) : m.row.rank = m.priority.rank := by
  rw [MessageRow.rank, Message.row]
  cases m.priority <;> rfl

theorem standsBefore_iff {m n : Message} : m.StandsBefore n ↔ m.row.place < n.row.place := by
  rw [MessageRow.place, MessageRow.place, Prod.Lex.toLex_lt_toLex, Prod.Lex.toLex_lt_toLex,
    rank_row, rank_row]
  rfl

theorem pairwise_inboxRows (s : Store) (agent : String) (unreadOnly : Bool) :
    (s.inboxRows agent unreadOnly).Pairwise fun a b => a.place ≤ b.place := by
  have htrans : ∀ a b c : MessageRow, a.precedes b → b.precedes c → a.precedes c := by
    simp only [MessageRow.precedes_iff]
    exact fun a b c => le_trans
  have htotal : ∀ a b : MessageRow, (a.precedes b || b.precedes a) = true := by
    simp only [Bool.or_eq_true, MessageRow.precedes_iff]
    exact fun a b => le_total _ _
  exact (List.pairwise_mergeSort htrans htotal _).imp MessageRow.precedes_iff.1

/-! ### What an inbox lists -/

/-- The statuses of the messages that an inbox lists. -/
def listedStatus (unreadOnly : Bool) (x : MessageStatus) : Bool :=
  if unreadOnly then x == .unread else x != .archived

/-- These messages are all those stored for an agent whose status is wanted, in the order of an
inbox. -/
structure Store.Lists (s : Store) (agent : String) (wanted : MessageStatus → Bool)
    (ms : List Message) : Prop where
  mem_iff : ∀ m, m ∈ ms ↔
    m.row ∈ s.messages ∧ (m.recipient = agent ∨ m.recipient = everyone) ∧ wanted m.status = true
  ordered : ms.Pairwise Message.StandsBefore

namespace Store.Lists

variable {s s' : Store} {agent : String} {wanted : MessageStatus → Bool} {ms ns : List Message}

theorem nodup (h : s.Lists agent wanted ms) : ms.Nodup := by
  refine h.ordered.imp fun hbefore heq => ?_
  rw [heq, standsBefore_iff] at hbefore
  exact lt_irrefl _ hbefore

theorem unique (h : s.Lists agent wanted ms) (h' : s.Lists agent wanted ns) : ms = ns := by
  have hperm : ms.Perm ns := (List.perm_ext_iff_of_nodup h.nodup h'.nodup).2 fun m =>
    (h.mem_iff m).trans (h'.mem_iff m).symm
  refine hperm.eq_of_pairwise (fun m n _ _ hmn hnm => ?_) h.ordered h'.ordered
  rw [standsBefore_iff] at hmn hnm
  exact absurd hmn (lt_asymm hnm)

theorem of_perm (h : s.Lists agent wanted ms) (hperm : s'.messages.Perm s.messages) :
    s'.Lists agent wanted ms := by
  refine ⟨fun m => ?_, h.ordered⟩
  rw [h.mem_iff, hperm.mem_iff]

/-- Of what is listed, what is still wanted is the list of that. -/
theorem filter {fewer : MessageStatus → Bool} (h : s.Lists agent wanted ms)
    (hfewer : ∀ x, fewer x = true → wanted x = true) :
    s.Lists agent fewer (ms.filter fun m => fewer m.status) := by
  refine ⟨fun m => ?_, h.ordered.filter _⟩
  rw [List.mem_filter, h.mem_iff]
  constructor
  · rintro ⟨⟨hstored, hfor, -⟩, hwanted⟩
    exact ⟨hstored, hfor, hwanted⟩
  · rintro ⟨hstored, hfor, hwanted⟩
    exact ⟨⟨hstored, hfor, hfewer _ hwanted⟩, hwanted⟩

end Store.Lists

variable {s : Store} {agent : String} {unreadOnly : Bool} {ms : List Message}

theorem inbox_eq_ok_iff : s.inbox agent unreadOnly = .ok ms ↔
    ms.map Message.row = s.inboxRows agent unreadOnly :=
  mapM_toMessage_eq_ok_iff

theorem listedStatus_row (m : Message) (unreadOnly : Bool) :
    (if unreadOnly then m.row.has .unread else !m.row.has .archived) = true ↔
      listedStatus unreadOnly m.status = true := by
  cases unreadOnly with
  | true => rw [listedStatus, if_pos rfl, if_pos rfl, has_row, beq_iff_eq]
  | false =>
    rw [listedStatus, if_neg Bool.false_ne_true, if_neg Bool.false_ne_true, Bool.not_eq_true',
      ← Bool.not_eq_true, has_row, bne_iff_ne]

/-- With distinct ids no two rows stand at the same place. -/
theorem lists_of_inbox (hids : s.ids.Nodup) (h : s.inbox agent unreadOnly = .ok ms) :
    s.Lists agent (listedStatus unreadOnly) ms := by
  have hrows := inbox_eq_ok_iff.1 h
  refine ⟨fun m => ?_, ?_⟩
  · rw [← List.mem_map_of_injective fun _ _ => row_injective, hrows, mem_inboxRows, isFor_row,
      listedStatus_row]
  · have hdistinct : ms.Pairwise fun m n => m.id ≠ n.id := by
      have hlisted : ((s.inboxRows agent unreadOnly).map (·.id)).Nodup :=
        ((List.mergeSort_perm ..).map _).nodup_iff.2 ((List.filter_sublist.map _).nodup hids)
      rw [← hrows, List.map_map] at hlisted
      exact List.pairwise_map.1 hlisted
    have hplaces := pairwise_inboxRows s agent unreadOnly
    rw [← hrows, List.pairwise_map] at hplaces
    refine (hplaces.and hdistinct).imp ?_
    rintro m n ⟨hle, hne⟩
    refine standsBefore_iff.2 (lt_of_le_of_ne hle fun heq => hne ?_)
    have hid := congrArg (fun place => OrderDual.ofDual (ofLex (ofLex place).2).2) heq
    exact hid

theorem counts_of_inbox (h : s.inbox agent false = .ok ms) :
    s.counts agent = ⟨ms.length, (ms.filter fun m => listedStatus true m.status).length⟩ := by
  have hperm : (s.inboxRows agent false).Perm
      (s.messages.filter fun r => r.isFor agent && !r.has .archived) := List.mergeSort_perm ..
  rw [← inbox_eq_ok_iff.1 h] at hperm
  have hunread : (fun r => MessageRow.has r .unread) ∘ Message.row =
      fun m => listedStatus true m.status := by
    funext m
    exact Bool.eq_iff_iff.2 (listedStatus_row m true)
  rw [Store.counts, ← hperm.length_eq, ← hperm.countP_eq, List.length_map, List.countP_map,
    hunread, List.countP_eq_length_filter]

/-- An inbox lists what is stored for an agent and not archived, each message once and in the order
of inboxes; the unread inbox is the part of it that is unread, and the sizes that come with either
of them are those of both. This does not depend on the order in which the rows came in. -/
theorem inbox_lists_in_order {σ : Type} (hrows : ∀ r ∈ s.messages, ∃ m, r.toMessage = .ok m)
    (hids : s.ids.Nodup) (agent : String) :
    ∃ inbox unread : List Message, s.Lists agent (· != .archived) inbox ∧ inbox.Nodup ∧
      unread = inbox.filter (·.status == .unread) ∧
      ∀ s' : Store, s'.messages.Perm s.messages →
        s'.inbox agent false = .ok inbox ∧ s'.inbox agent true = .ok unread ∧
        ∀ (b : Mailbox σ) (given : Option String) (unreadOnly : Bool),
          given.getD b.identity.agentId = agent →
          b.check given unreadOnly s' = .ok
            ⟨agent, if unreadOnly then unread else inbox, inbox.length, unread.length⟩ := by
  have hlistable : ∀ (s' : Store) (unreadOnly : Bool), s'.messages.Perm s.messages →
      ∃ ms, s'.inbox agent unreadOnly = .ok ms ∧ s'.Lists agent (listedStatus unreadOnly) ms := by
    intro s' unreadOnly hperm
    obtain ⟨ms, hms⟩ := exists_mapM_eq_ok.2 fun r hr =>
      hrows r (hperm.mem_iff.1 (mem_inboxRows.1 hr).1)
    exact ⟨ms, hms, lists_of_inbox ((hperm.map _).nodup_iff.2 hids) hms⟩
  obtain ⟨inbox, -, hinbox⟩ := hlistable s false (.refl _)
  refine ⟨inbox, _, hinbox, hinbox.nodup, rfl, fun s' hperm => ?_⟩
  -- what a store with the same rows lists is the one list there is
  have hwhole : s'.inbox agent false = .ok inbox := by
    obtain ⟨ms, hms, hlists⟩ := hlistable s' false hperm
    rw [hms, hlists.unique (hinbox.of_perm hperm)]
  have hunread : s'.inbox agent true = .ok (inbox.filter fun m => m.status == .unread) := by
    obtain ⟨ms, hms, hlists⟩ := hlistable s' true hperm
    rw [hms, hlists.unique ((hinbox.filter fun x hx => ?_).of_perm hperm)]
    · rfl
    · obtain rfl := beq_iff_eq.1 hx
      rfl
  refine ⟨hwhole, hunread, fun b given unreadOnly hagent => ?_⟩
  have hcounts := counts_of_inbox hwhole
  rw [Mailbox.check, hagent, check_eq_ok, hcounts]
  cases unreadOnly with
  | true => exact ⟨_, hunread, rfl⟩
  | false => exact ⟨_, hwhole, rfl⟩

/-! ### A full tray -/

/-- A message from `a`, with stamps that fit its status. -/
def trayMessage (id recipient : String) (priority : Priority) (day : String)
    (status : MessageStatus) : Message :=
  ⟨id, "a", recipient, .request, priority, noConvoy, "hi", status, day ++ "T00:00:00.000Z",
    if status = .unread then none else some "2025-01-04T00:00:00.000Z",
    if status = .archived then some "2025-01-05T00:00:00.000Z" else none⟩

/-- Messages of all kinds, in no order. -/
def trayMessages : List Message :=
  [trayMessage "m1" "b" .low "2025-01-03" .unread,
    trayMessage "m2" everyone .normal "2025-01-01" .read,
    trayMessage "m3" "b" .normal "2025-01-01" .unread,
    trayMessage "m4" "c" .high "2025-01-02" .unread,
    trayMessage "m5" "b" .high "2025-01-01" .archived,
    trayMessage "m6" everyone .normal "2025-01-02" .unread]

/-- A store with these messages. -/
def tray : Store := ⟨trayMessages.map Message.row, [], schemaVersion⟩

/-- The inbox of the agent `b`. The times of the two in the middle are the same. -/
def trayInbox : List Message :=
  [trayMessage "m6" everyone .normal "2025-01-02" .unread,
    trayMessage "m3" "b" .normal "2025-01-01" .unread,
    trayMessage "m2" everyone .normal "2025-01-01" .read,
    trayMessage "m1" "b" .low "2025-01-03" .unread]

theorem lists_trayInbox : tray.Lists "b" (· != .archived) trayInbox := by
  have hperm : trayInbox.Perm (trayMessages.filter fun m =>
      (m.recipient == "b" || m.recipient == everyone) && m.status != .archived) := by
    decide +kernel
  refine ⟨fun m => ?_, by decide +kernel⟩
  rw [hperm.mem_iff, List.mem_filter, Bool.and_eq_true, Bool.or_eq_true, beq_iff_eq, beq_iff_eq,
    tray, List.mem_map_of_injective fun _ _ => row_injective]

/-- The mailbox of the agent `b`. -/
def trayMailbox : Mailbox Unit := ⟨⟨"b", none, none⟩, .empty, .here, none⟩

theorem inbox_lists_in_order_tray :
    (∀ r ∈ tray.messages, ∃ m, r.toMessage = .ok m) ∧ tray.ids.Nodup ∧
      trayMailbox.check none true { tray with messages := tray.messages.reverse } =
        .ok ⟨"b", trayInbox.filter (·.status == .unread), 4, 3⟩ := by
  have hrows : ∀ r ∈ tray.messages, ∃ m, r.toMessage = .ok m := by
    intro r hr
    obtain ⟨m, -, rfl⟩ := List.mem_map.1 hr
    exact ⟨m, toMessage_row m⟩
  have hids : tray.ids.Nodup := by decide
  obtain ⟨inbox, unread, hlists, -, rfl, hstored⟩ := inbox_lists_in_order hrows hids "b"
  obtain rfl := hlists.unique lists_trayInbox
  have hcheck := (hstored { tray with messages := tray.messages.reverse }
    (List.reverse_perm _)).2.2 trayMailbox none true rfl
  exact ⟨hrows, hids, hcheck⟩

end Mailroom
