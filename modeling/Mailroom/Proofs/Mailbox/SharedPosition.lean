/-
Agents that share an inbound position.

Agents on one machine share the store, and the transports keep one position for all of
them. A pass stores what is for its own agent and moves the position past everything that
it fetched. So what a pass fetches does not depend on whose pass it is, but what becomes
of it does.

* `takeTurns` — passes of several mailboxes, one after another;
* `fetchTurns` — what these passes fetch, found without looking at the mailboxes;
* `takeTurns_eq` — each pass takes in what it fetched for its own agent;
* `stored_iff_fetched_for_addressee` — an envelope comes into the store exactly if a pass of
  an agent that it is for has fetched it, and then it is in the inbox of that agent;
* `lost_to_first_turn` — an envelope for the agent that polls second is gone.
-/
import Mailroom.Proofs.Mailbox.Arrivals
import Mailroom.Proofs.Mailbox.Inboxes
import Mailroom.Proofs.Transport.Stream
import Mailroom.Transport.Simplex

namespace Mailroom

variable {σ : Type}

/-- A mailbox whose turn it is to receive, and its pass. -/
structure Turn (σ : Type) where
  mailbox : Mailbox σ
  pass : Pass σ

/-- The agent whose turn it is. -/
def Turn.agent (t : Turn σ) : String := t.mailbox.identity.agentId

/-- Several mailboxes receive in turn, each from all of its transports. -/
def takeTurns : List (Turn σ) → Store → σ → Store × σ
  | [], s, w => (s, w)
  | t :: ts, s, w =>
    let (_, s, w) := t.mailbox.receive none t.pass.times s (t.pass.before w)
    takeTurns ts s w

/-- What several passes over the transports of a registry fetch, pass by pass. -/
def fetchTurns (r : Registry σ) : List (Pass σ) → σ → List (List (Envelope × String))
  | [], _ => []
  | p :: ps, w =>
    let (pulled, w) := pullAll p.times (r.resolve .all) (p.before w)
    pulled :: fetchTurns r ps w

/-- Whether an envelope has been fetched in a turn. -/
def FetchedIn (r : Registry σ) (turns : List (Turn σ)) (w : σ) (t : Turn σ) (e : Envelope) : Prop :=
  ∃ pulled time, (t, pulled) ∈ turns.zip (fetchTurns r (turns.map Turn.pass) w) ∧
    (e, time) ∈ pulled

/-- The messages that several turns bring: each brings those for its own agent. -/
def turnArrivals (r : Registry σ) (turns : List (Turn σ)) (w : σ) : List Message :=
  (turns.zip (fetchTurns r (turns.map Turn.pass) w)).flatMap fun x => arrivals x.1.agent x.2

variable {r : Registry σ} {turns : List (Turn σ)}

theorem takeTurns_cons {t : Turn σ} (ht : t.mailbox.registry = r) (s : Store) (w : σ) :
    takeTurns (t :: turns) s w =
      takeTurns turns
        (s.takeIn (arrivals t.agent (pullAll t.pass.times (r.resolve .all) (t.pass.before w)).1))
        (pullAll t.pass.times (r.resolve .all) (t.pass.before w)).2 := by
  have hvisited : t.mailbox.visited none = r.resolve .all := by rw [← ht]; rfl
  have hreceive := t.mailbox.receive_eq none t.pass.times s (t.pass.before w)
  rw [hvisited] at hreceive
  rw [takeTurns]
  rcases hpass : t.mailbox.receive none t.pass.times s (t.pass.before w) with ⟨result, s', w'⟩
  rw [hpass] at hreceive
  obtain ⟨rfl, rfl⟩ := Prod.mk.inj hreceive
  rfl

theorem takeTurns_eq (hshare : ∀ t ∈ turns, t.mailbox.registry = r) (s : Store) (w : σ) :
    (takeTurns turns s w).1 = s.takeIn (turnArrivals r turns w) := by
  induction turns generalizing s w with
  | nil => rfl
  | cons t turns ih =>
    rw [takeTurns_cons (hshare t List.mem_cons_self),
      ih fun u hu => hshare u (List.mem_cons_of_mem _ hu), ← Store.takeIn_append]
    rfl

theorem mem_turnArrivals {w : σ} {m : Message} : m ∈ turnArrivals r turns w ↔
    ∃ t pulled e time, (t, pulled) ∈ turns.zip (fetchTurns r (turns.map Turn.pass) w) ∧
      (e, time) ∈ pulled ∧ e.isFor t.agent = true ∧ m = e.arrived time := by
  simp only [turnArrivals, List.mem_flatMap, Prod.exists, mem_arrivals]
  constructor
  · rintro ⟨t, pulled, hturn, e, time, he, hfor, hm⟩
    exact ⟨t, pulled, e, time, hturn, he, hfor, hm⟩
  · rintro ⟨t, pulled, e, time, hturn, he, hfor, hm⟩
    exact ⟨t, pulled, hturn, e, time, he, hfor, hm⟩

theorem mem_ids_takeTurns (hshare : ∀ t ∈ turns, t.mailbox.registry = r) (s : Store) (w : σ)
    (id : String) : id ∈ (takeTurns turns s w).1.ids ↔ id ∈ s.ids ∨
      ∃ t e, FetchedIn r turns w t e ∧ e.isFor t.agent = true ∧ e.id = id := by
  rw [takeTurns_eq hshare, Store.mem_ids_takeIn]
  refine or_congr_right ?_
  constructor
  · rintro ⟨m, hm, hid⟩
    obtain ⟨t, pulled, e, time, hturn, he, hfor, rfl⟩ := mem_turnArrivals.1 hm
    exact ⟨t, e, ⟨pulled, time, hturn, he⟩, hfor, hid⟩
  · rintro ⟨t, e, ⟨pulled, time, hturn, he⟩, hfor, hid⟩
    exact ⟨e.arrived time, mem_turnArrivals.2 ⟨t, pulled, e, time, hturn, he, hfor, rfl⟩, hid⟩

/-- Whatever a transport hands over when the turn of a mailbox comes to it is fetched. -/
theorem fetchedIn_of_fetch {before after : List (Turn σ)} {t : Turn σ}
    (hshare : ∀ u ∈ before, u.mailbox.registry = r) {s : Store} {w w' : σ}
    {front back : List (Transport σ)} {x : Transport σ} {fetched : Fetched}
    (hresolve : r.resolve .all = front ++ x :: back)
    (hcan : x.canReceive
      (pullAll t.pass.times front (t.pass.before (takeTurns before s w).2)).2 = true)
    (hfetch : x.fetch (pullAll t.pass.times front (t.pass.before (takeTurns before s w).2)).2 =
      (.ok fetched, w')) {e : Envelope} (he : e ∈ fetched.envelopes) :
    FetchedIn r (before ++ t :: after) w t e := by
  -- earlier turns only move the surroundings, in the same way for both sides
  induction before generalizing s w with
  | nil =>
    obtain ⟨time, htime⟩ := mem_pullAll_of_fetch back hcan hfetch he
    rw [← hresolve] at htime
    exact ⟨_, time, List.mem_cons_self, htime⟩
  | cons u before ih =>
    rw [takeTurns_cons (hshare u List.mem_cons_self)] at hcan hfetch
    obtain ⟨pulled, time, hturn, htime⟩ :=
      ih (fun v hv => hshare v (List.mem_cons_of_mem _ hv)) hcan hfetch
    exact ⟨pulled, time, List.mem_cons_of_mem _ hturn, htime⟩

/-- An envelope that came into the store is in the inbox of every agent that it is for, unless
its id stood for something else as well. -/
theorem mem_inboxRows_takeTurns (hshare : ∀ t ∈ turns, t.mailbox.registry = r) (s : Store) (w : σ)
    {e : Envelope} (hnew : e.id ∉ s.ids) (hin : e.id ∈ (takeTurns turns s w).1.ids)
    (hone : ∀ t e', FetchedIn r turns w t e' → e'.id = e.id → e' = e) {agent : String}
    (hfor : e.isFor agent = true) :
    ∃ time, (e.arrived time).row ∈ (takeTurns turns s w).1.inboxRows agent false := by
  rw [takeTurns_eq hshare] at hin ⊢
  obtain ⟨ms, hadds, hsub⟩ := s.adds_takeIn (turnArrivals r turns w)
  rw [hadds.ids_eq, List.mem_append] at hin
  -- the row of this id came in as the message of some fetched envelope of this id
  obtain ⟨m, hm, hid⟩ := List.mem_map.1 (hin.resolve_left hnew)
  obtain ⟨t, pulled, e', time, hturn, he', -, rfl⟩ := mem_turnArrivals.1 (hsub.subset hm)
  obtain rfl := hone t e' ⟨pulled, time, hturn, he'⟩ hid
  refine ⟨time, mem_inboxRows.2 ⟨?_, hfor, rfl⟩⟩
  rw [hadds.messages]
  exact List.mem_append_right _ (List.mem_map_of_mem hm)

/-- What mailboxes that share the store and the transports of `r` do when they receive in turn:
`s` and `s'` are the store before and after, and `w` the surroundings before. -/
structure TurnsShared (r : Registry σ) (turns : List (Turn σ)) (s : Store) (w : σ) (s' : Store) :
    Prop where
  /-- nothing that was stored is lost -/
  kept : s.messages <+: s'.messages
  /-- an envelope comes in exactly if a turn of an agent that it is for has fetched it -/
  stored : ∀ id, id ∈ s'.ids ↔ id ∈ s.ids ∨
    ∃ t e, FetchedIn r turns w t e ∧ e.isFor t.agent = true ∧ e.id = id
  /-- so it does if it is still handed over when such a turn comes -/
  waiting : ∀ before t after, turns = before ++ t :: after →
    ∀ front x back, r.resolve .all = front ++ x :: back →
      ∀ w₁, w₁ = (pullAll t.pass.times front (t.pass.before (takeTurns before s w).2)).2 →
        x.canReceive w₁ = true → ∀ fetched w', x.fetch w₁ = (.ok fetched, w') →
          ∀ e ∈ fetched.envelopes, e.isFor t.agent = true → e.id ∈ s'.ids
  /-- if its id is new and stands for nothing else, it is then in the inbox of every agent
  that it is for -/
  listed : ∀ e, e.id ∈ s'.ids → e.id ∉ s.ids →
    (∀ t e', FetchedIn r turns w t e' → e'.id = e.id → e' = e) →
      ∀ agent, e.isFor agent = true → ∃ time, (e.arrived time).row ∈ s'.inboxRows agent false

/-- Mailboxes share the store and the transports and receive in turn, in any order. -/
theorem stored_iff_fetched_for_addressee (hshare : ∀ t ∈ turns, t.mailbox.registry = r) (s : Store)
    (w : σ) : TurnsShared r turns s w (takeTurns turns s w).1 := by
  refine ⟨?_, mem_ids_takeTurns hshare s w, ?_, ?_⟩
  · rw [takeTurns_eq hshare]
    obtain ⟨ms, hadds, -⟩ := s.adds_takeIn (turnArrivals r turns w)
    exact ⟨_, hadds.messages.symm⟩
  · rintro before t after rfl front x back hresolve _ rfl hcan fetched w' hfetch e he hfor
    have hbefore : ∀ u ∈ before, u.mailbox.registry = r := fun u hu =>
      hshare u (List.mem_append_left _ hu)
    exact (mem_ids_takeTurns hshare s w e.id).2
      (.inr ⟨t, e, fetchedIn_of_fetch hbefore hresolve hcan hfetch he, hfor, rfl⟩)
  · intro e hin hnew hone agent hfor
    exact mem_inboxRows_takeTurns hshare s w hnew hin hone hfor

/-! ### Two agents and a spool -/

/-- An envelope for the agent `b`. -/
def hiToB : Envelope := ⟨"m1", "x", "b", .request, .normal, noConvoy, "hi"⟩

/-- A file with this envelope lies in the spool. -/
def oneFileInSpool : Surroundings :=
  { Surroundings.bare with
    tree := ⟨[(["spool"], .folder), (["spool", "001.txt"],
      .file ⟨.bytes (Text.encodeUtf8 hiToB.encode), 0⟩)]⟩ }

/-- The transports of every agent of the machine. -/
def spoolRegistry : Registry Surroundings :=
  .register .empty (simplex ⟨"simplex-chat", none, none, "/spool"⟩)

/-- A turn of an agent of the machine. -/
def spoolTurn (agent : String) : Turn Surroundings where
  mailbox := ⟨⟨agent, none, none⟩, spoolRegistry, .all, none⟩
  pass := ⟨fun w => w, fun _ => "2025-01-01T00:00:00.000Z"⟩

/-- What comes of a turn at the end of some others. -/
def receiptAfter (turns : List (Turn Surroundings)) (t : Turn Surroundings) :
    Except Error Receipt :=
  (t.mailbox.receive none t.pass.times (takeTurns turns .empty oneFileInSpool).1
    (takeTurns turns .empty oneFileInSpool).2).1

theorem stored_iff_fetched_for_addressee_spool :
    (takeTurns [spoolTurn "b", spoolTurn "a"] .empty oneFileInSpool).1.ids = ["m1"] ∧
      (∀ t ∈ [spoolTurn "b", spoolTurn "a"], t.mailbox.registry = spoolRegistry) ∧
      TurnsShared spoolRegistry [spoolTurn "b", spoolTurn "a"] .empty oneFileInSpool
        (takeTurns [spoolTurn "b", spoolTurn "a"] .empty oneFileInSpool).1 := by
  have hshare : ∀ t ∈ [spoolTurn "b", spoolTurn "a"], t.mailbox.registry = spoolRegistry := by
    simp [spoolTurn]
  exact ⟨by decide +kernel, hshare, stored_iff_fetched_for_addressee hshare _ _⟩

/-- The agent `a` polls first and `b` second, and no call fails; but the envelope for `b` is
fetched in the turn of `a` only, and not stored. -/
theorem lost_to_first_turn :
    (spoolFetch "/spool" oneFileInSpool).toOption.map (·.envelopes) = some [hiToB] ∧
      receiptAfter [] (spoolTurn "a") = .ok ⟨[("simplex", .polled 1 0)]⟩ ∧
      receiptAfter [spoolTurn "a"] (spoolTurn "b") = .ok ⟨[("simplex", .polled 0 0)]⟩ ∧
      (takeTurns [spoolTurn "a", spoolTurn "b"] .empty oneFileInSpool).1.messages = [] := by
  decide +kernel

end Mailroom
