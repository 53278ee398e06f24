/-
Transports that work on one room.

Several machines may post lines into a room and read them from there. What holds of all of
them comes from what each transport leaves alone: it says nothing in the room but the line it
is given, and it fetches nothing but what has been said there. Where it reads from, and
whether an operation fails, is its own affair.

* `Transport.WorksOn` — a transport of this kind;
* `Mailbox.WorksOn` — a mailbox that has no other ones;
* `room_relayAll` — what is in the room after sending;
* `said_pullAll` — what a pass hands over was said in the room;
* `worksOn_stream` — so it is with in-process channels, whatever fails.
-/
import Mailroom.Proofs.Mailbox.Arrivals
import Mailroom.Proofs.Transport.Relaying
import Mailroom.Proofs.Transport.Stream

namespace Mailroom

variable {σ : Type} {room : σ → List String}

/-- A transport that works on a room: `room` gives the lines in it. -/
structure Transport.WorksOn (t : Transport σ) (room : σ → List String) : Prop where
  send : ∀ line w, ∀ x ∈ room (t.send line w).2, x ∈ room w ∨ x = line
  fetch : ∀ w, room (t.fetch w).2 ⊆ room w
  commit : ∀ c w, room (t.commit c w).2 ⊆ room w
  fetched : ∀ w w' fetched, t.fetch w = (.ok fetched, w') → ∀ e ∈ fetched.envelopes,
    ∃ line ∈ room w, Envelope.decode? line = some e

/-- A mailbox all of whose transports work on a room. -/
def Mailbox.WorksOn (b : Mailbox σ) (room : σ → List String) : Prop :=
  ∀ t ∈ b.registry.transports, t.WorksOn room

theorem Mailbox.WorksOn.resolve {b : Mailbox σ} (h : b.WorksOn room) (x : Selector) :
    ∀ t ∈ b.registry.resolve x, t.WorksOn room :=
  fun t ht => h t ((b.registry.resolve_sublist x).subset ht)

theorem Mailbox.WorksOn.visited {b : Mailbox σ} (h : b.WorksOn room) (selector : Option String) :
    ∀ t ∈ b.visited selector, t.WorksOn room := by
  unfold Mailbox.visited
  cases receiveSelector selector with
  | error e => exact fun t ht => absurd ht List.not_mem_nil
  | ok x => exact h.resolve x

/-! ### Sending -/

theorem room_relay {t : Transport σ} (ht : t.WorksOn room) {line x : String} {w : σ}
    (hx : x ∈ room (t.relay line w).2) : x ∈ room w ∨ x = line := by
  rw [Transport.relay] at hx
  split at hx
  · rcases hsend : t.send line w with ⟨_ | _, w'⟩
    all_goals
      rw [hsend] at hx
      exact ht.send line w x (by rw [hsend]; exact hx)
  · exact .inl hx

theorem room_relayAll {ts : List (Transport σ)} (hts : ∀ t ∈ ts, t.WorksOn room) {line x : String}
    {w : σ} (hx : x ∈ room (relayAll line ts w).2) : x ∈ room w ∨ x = line := by
  induction ts generalizing w with
  | nil => exact .inl hx
  | cons t ts ih =>
    rcases ih (fun u hu => hts u (List.mem_cons_of_mem _ hu)) hx with hx | hx
    · exact room_relay (hts t List.mem_cons_self) hx
    · exact .inr hx

/-! ### Receiving -/

theorem room_pull {t : Transport σ} (ht : t.WorksOn room) (w : σ) : room (t.pull w).2 ⊆ room w := by
  rw [Transport.pull]
  split
  · have hsaid := ht.fetch w
    rcases hfetch : t.fetch w with ⟨_ | fetched, w'⟩
    · rw [hfetch] at hsaid
      exact hsaid
    · rw [hfetch] at hsaid
      exact List.Subset.trans (ht.commit fetched.checkpoint w') hsaid
  · exact List.Subset.refl _

theorem said_pull {t : Transport σ} (ht : t.WorksOn room) {w : σ} {e : Envelope}
    (he : e ∈ (t.pull w).1) : ∃ line ∈ room w, Envelope.decode? line = some e := by
  obtain ⟨fetched, w', hfetch, he⟩ := exists_fetch_of_mem_pull he
  exact ht.fetched w w' fetched hfetch e he

/-- A pass says nothing in the room, and what it hands over had been said there. -/
theorem said_pullAll (times : Nat → String) {ts : List (Transport σ)}
    (hts : ∀ t ∈ ts, t.WorksOn room) (w : σ) : room (pullAll times ts w).2 ⊆ room w ∧
      ∀ e time, (e, time) ∈ (pullAll times ts w).1 →
        ∃ line ∈ room w, Envelope.decode? line = some e := by
  -- on the way the room holds nothing but what was in it at the beginning
  refine pullAll_induction (fun v => room v ⊆ room w) ?_ times (List.Subset.refl _)
  intro t ht v hv
  refine ⟨List.Subset.trans (room_pull (hts t ht) v) hv, fun e he => ?_⟩
  obtain ⟨line, hline, hdecode⟩ := said_pull (hts t ht) he
  exact ⟨line, hv hline, hdecode⟩

/-! ### In-process channels -/

theorem room_commit_stream (s : StreamSettings) (name : String) (c : Checkpoint)
    (w : Surroundings) : (s.commit c w).room name = w.room name := by
  unfold StreamSettings.commit
  split
  · split
    · rfl
    · rfl
  · rfl

/-- A channel with a room works on it, whatever is made to fail. -/
theorem worksOn_stream {s : StreamSettings} {name : String} (hroom : s.room = some name) :
    (stream s).WorksOn (·.room name) where
  send := by
    intro line w x hx
    have hsend : (s.send line w).room name = w.room name ++ [line] := by
      rw [StreamSettings.send, hroom]
      exact Surroundings.room_say ..
    show x ∈ w.room name ∨ x = line
    cases hfault : s.sendFault with
    | some e =>
      simp only [stream, orFault, hfault] at hx
      exact .inl hx
    | none =>
      simp only [stream, orFault, hfault, hsend] at hx
      simpa using hx
  fetch := by
    intro w
    cases hfault : s.fetchFault with
    | some e => simp [stream, orFault, hfault]
    | none => simp [stream, orFault, hfault]
  commit := by
    intro c w
    cases hfault : s.commitFault with
    | some e => simp [stream, orFault, hfault]
    | none => simp [stream, orFault, hfault, room_commit_stream]
  fetched := by
    intro w w' fetched hfetch e he
    cases hfault : s.fetchFault with
    | some e =>
      simp only [stream, orFault, hfault] at hfetch
      exact absurd (Prod.mk.inj hfetch).1 (by simp)
    | none =>
      simp only [stream, orFault, hfault] at hfetch
      obtain ⟨hfetched, -⟩ := Prod.mk.inj hfetch
      obtain rfl := Except.ok.inj hfetched
      obtain ⟨line, hline, hdecode⟩ := List.mem_filterMap.1 he
      refine ⟨line, ?_, hdecode⟩
      have hlines : s.lines w = w.room name := by rw [StreamSettings.lines, hroom]
      rw [hlines] at hline
      exact List.mem_of_mem_drop hline

end Mailroom
