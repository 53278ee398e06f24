/-
What stops a letter, and what does not.

A draft is refused if it cannot be checked or if an id of its messages is taken. A refusal
leaves everything as it is, and no transport is given anything. The transports are asked only
when the messages are stored, and by then it is settled which messages these are: with other
transports, in any surroundings, the same draft is refused in the same way or stored in the
same rows.

* `Mailbox.Refuses`, `Mailbox.Stores` — why a draft is refused, and what is done otherwise;
* `Mailbox.post_eq_error_iff`, `Mailbox.send_eq_post` — one of the two, and nothing else;
* `Mailbox.through` — the mailbox with other transports;
* `transports_have_no_say` — sending, with its own transports and with any others.
-/
import Mailroom.Proofs.Mailbox.Broadcast

namespace Mailroom

namespace Mailbox

variable {σ τ : Type} {b : Mailbox σ} {d : Draft} {time : String} {ids : Nat → String} {s : Store}

/-! ### Refused or stored -/

/-- Why a mailbox refuses a draft, where its messages would have this time and these ids. -/
inductive Refuses (b : Mailbox σ) (d : Draft) (time : String) (ids : Nat → String) (s : Store) :
    Error → Prop where
  | unchecked {f : InputFault} (hcheck : d.check b.identity.agentId b.selector = .error f) :
      Refuses b d time ids s (.input f)
  | taken {l : Letter} (hcheck : d.check b.identity.agentId b.selector = .ok l)
      (hclash : ¬ (((l.messages s time ids).map (·.id)).Nodup ∧
        ∀ m ∈ l.messages s time ids, m.id ∉ s.ids)) :
      Refuses b d time ids s (.storage .idTaken)

/-- What becomes of the store when a draft is not refused: it gains the messages of the letter,
which have these ids. -/
structure Stores (b : Mailbox σ) (d : Draft) (time : String) (ids : Nat → String) (s s' : Store)
    (given : List String) : Prop where
  messages : ∃ l, d.check b.identity.agentId b.selector = .ok l ∧
    Adds s (l.messages s time ids) s' ∧ given = (l.messages s time ids).map (·.id)
  roster : s'.roster = s.roster
  version : s'.version = s.version

theorem stores_of_transact {l : Letter} {s' : Store}
    (hcheck : d.check b.identity.agentId b.selector = .ok l)
    (hstored : s.transact (l.messages s time ids) = (.ok (), s')) :
    b.Stores d time ids s s' ((l.messages s time ids).map (·.id)) := by
  have hadds := adds_transact hstored
  obtain ⟨-, rfl⟩ := transact_eq_ok_iff.1 hstored
  exact ⟨⟨l, hcheck, hadds, rfl⟩, rfl, rfl⟩

theorem Refuses.post_eq {e : Error} (h : b.Refuses d time ids s e) :
    b.post d time ids s = (.error e, s) := by
  cases h with
  | unchecked hcheck => rw [post, hcheck]
  | taken hcheck hclash =>
    rw [post, hcheck]
    dsimp only
    rw [transact_of_clash hclash]

/-- A draft is refused for one of the two reasons, and the store is left as it was. -/
theorem post_eq_error_iff {e : Error} {s' : Store} :
    b.post d time ids s = (.error e, s') ↔ b.Refuses d time ids s e ∧ s' = s := by
  constructor
  · intro h
    have hrefused : ∀ {f : Error}, b.Refuses d time ids s f → f = e ∧ s = s' := fun hf => by
      obtain ⟨hfault, hstore⟩ := Prod.mk.inj (hf.post_eq.symm.trans h)
      exact ⟨Except.error.inj hfault, hstore⟩
    cases hcheck : d.check b.identity.agentId b.selector with
    | error f =>
      obtain ⟨rfl, rfl⟩ := hrefused (.unchecked hcheck)
      exact ⟨.unchecked hcheck, rfl⟩
    | ok l =>
      by_cases hclash : ((l.messages s time ids).map (·.id)).Nodup ∧
          ∀ m ∈ l.messages s time ids, m.id ∉ s.ids
      · have hposted := post_of_transact hcheck (transact_of_fresh hclash.1 hclash.2)
        exact absurd (Prod.mk.inj (hposted.symm.trans h)).1 nofun
      · obtain ⟨rfl, rfl⟩ := hrefused (.taken hcheck hclash)
        exact ⟨.taken hcheck hclash, rfl⟩
  · rintro ⟨hrefuses, rfl⟩
    exact hrefuses.post_eq

/-! ### Sending -/

theorem Refuses.send_eq {e : Error} (h : b.Refuses d time ids s e) (w : σ) :
    b.send d time ids s w = (.error e, s, w) := by
  rw [send, h.post_eq]

/-- Sending gives the ids and the store that storing alone gives. -/
theorem send_eq_post (b : Mailbox σ) (d : Draft) (time : String) (ids : Nat → String) (s : Store)
    (w : σ) :
    ((b.send d time ids s w).1.map Sent.ids, (b.send d time ids s w).2.1) =
      ((b.post d time ids s).1.map fun posted => posted.2.map (·.id), (b.post d time ids s).2) := by
  rcases post_cases b d time ids s with ⟨e, hpost⟩ | ⟨l, s', -, -, hpost⟩
  · rw [send, hpost]
    rfl
  · rw [send_of_post hpost, hpost]
    rfl

theorem send_eq_error_iff {e : Error} {w : σ} :
    (b.send d time ids s w).1 = .error e ↔ b.Refuses d time ids s e := by
  refine ⟨fun h => ?_, fun h => by rw [h.send_eq]⟩
  rcases post_cases b d time ids s with ⟨f, hpost⟩ | ⟨l, s', -, -, hpost⟩
  · rw [send, hpost] at h
    obtain rfl := Except.error.inj h
    exact (post_eq_error_iff.1 hpost).1
  · rw [send_of_post hpost] at h
    exact absurd h (by simp)

/-- The mailbox with other transports. -/
def through (b : Mailbox σ) (r : Registry τ) : Mailbox τ := ⟨b.identity, r, b.selector, b.file⟩

end Mailbox

/-- A draft that is refused leaves the store and all surroundings as they were, and no transport
has been given anything; otherwise all its messages are stored. With any other transports it comes
to the same. -/
theorem transports_have_no_say {σ : Type} (b : Mailbox σ) (d : Draft) (time : String)
    (ids : Nat → String) (s : Store) (w : σ) :
    (∀ e, (b.send d time ids s w).1 = .error e ↔ b.Refuses d time ids s e) ∧
    (∀ e, (b.send d time ids s w).1 = .error e →
      (b.send d time ids s w).2 = (s, w) ∧
        ∀ notes, b.noting.send d time ids s (w, notes) = (.error e, s, w, notes)) ∧
    (∀ sent, (b.send d time ids s w).1 = .ok sent →
      b.Stores d time ids s (b.send d time ids s w).2.1 sent.ids) ∧
    ∀ {τ : Type} (r : Registry τ) (w' : τ),
      ((b.through r).send d time ids s w').1.map Sent.ids =
          (b.send d time ids s w).1.map Sent.ids ∧
        ((b.through r).send d time ids s w').2.1 = (b.send d time ids s w).2.1 := by
  refine ⟨fun e => Mailbox.send_eq_error_iff, ?_, ?_, ?_⟩
  · intro e he
    have hrefuses := Mailbox.send_eq_error_iff.1 he
    have hnoting : b.noting.post d time ids s = (.error e, s) := hrefuses.post_eq
    refine ⟨?_, ?_⟩
    · rw [hrefuses.send_eq]
    · intro notes
      rw [Mailbox.send, hnoting]
  · intro sent hsent
    rcases post_cases b d time ids s with ⟨e, hpost⟩ | ⟨l, s', hcheck, hstored, hpost⟩
    · rw [Mailbox.send, hpost] at hsent
      exact absurd hsent (by simp)
    · rw [send_of_post hpost] at hsent ⊢
      obtain rfl := Except.ok.inj hsent
      exact Mailbox.stores_of_transact hcheck hstored
  · intro τ r w'
    -- the part that stores does not look at the transports
    have hsame : (b.through r).post d time ids s = b.post d time ids s := rfl
    have hown := b.send_eq_post d time ids s w
    have hother := (b.through r).send_eq_post d time ids s w'
    rw [hsame, ← hown] at hother
    exact Prod.mk.inj hother

/-- A transport that loses what it is given and says so. -/
def brokenWire : Transport Unit :=
  { localTransport Unit with
    name := "wire", isNetwork := true, send := fun _ w => (.error .timeout, w) }

/-- The store of the three agents once the broadcast has been sent. -/
def toldStore : Store :=
  ((onWire "a").send newsDraft "2025-01-03T00:00:00.000Z" (messageId 0) crewStore ()).2.1

/-- Sent a second time under the same ids, the broadcast is refused; the first time it is stored
even if the only transport fails. -/
theorem transports_have_no_say_crew :
    ((onWire "a").send newsDraft "2025-01-03T00:00:00.000Z" (messageId 0) toldStore ()).1 =
        .error (.storage .idTaken) ∧
      ((onWire "a").send newsDraft "2025-01-03T00:00:00.000Z" (messageId 0) toldStore ()).2.1 =
        toldStore ∧
      (((onWire "a").through ⟨[brokenWire]⟩).send newsDraft "2025-01-03T00:00:00.000Z" (messageId 0)
        crewStore ()).2.1 = toldStore ∧
      toldStore.ids = [messageId 0 0] := by
  have hids : toldStore.ids = [messageId 0 0] := by decide +kernel
  obtain ⟨hreasons, hframe, -, -⟩ := transports_have_no_say (onWire "a") newsDraft
    "2025-01-03T00:00:00.000Z" (messageId 0) toldStore ()
  obtain ⟨-, -, -, hothers⟩ := transports_have_no_say (onWire "a") newsDraft
    "2025-01-03T00:00:00.000Z" (messageId 0) crewStore ()
  have hrefused := (hreasons _).2 <| .taken (l := newsLetter) rfl <| by
    rintro ⟨-, hfresh⟩
    obtain ⟨recipient, rest, hms, -⟩ :=
      messages_eq_cons newsLetter toldStore "2025-01-03T00:00:00.000Z" (messageId 0)
    rw [hms] at hfresh
    refine hfresh _ List.mem_cons_self ?_
    rw [hids]
    exact List.mem_singleton_self _
  exact ⟨hrefused, congrArg Prod.fst (hframe _ hrefused).1, (hothers ⟨[brokenWire]⟩ ()).2, hids⟩

end Mailroom
