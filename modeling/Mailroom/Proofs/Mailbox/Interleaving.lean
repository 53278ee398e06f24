/-
Passes that come in between each other.

Several passes of one agent may be under way on one store and one channel. A pass fetches,
stores the envelopes one at a time and commits; between any two of these steps other
passes may go on and lines may come in, and a pass may end early. A pass that began
earlier and commits later moves the offset backward.

* `World`, `Step` — the state of all of them, and one step of one of them;
* `reaches_poll` — a pass that nothing comes in between of is a poll;
* `Safe` — the invariant: what stands before the offset is stored, and what stands before
  the cursor of a pass is stored or is still to be stored by this pass;
* `safe_step`, `safe_of_reaches` — it holds in every reachable state;
* `taken_over_is_stored` — so nothing before the offset is missing, nothing is stored
  twice, and nothing that was stored is lost.
-/
import Mailroom.Mailbox.Arrival
import Mailroom.Proofs.Store.Growth
import Mailroom.Proofs.Transport.Stream
import Mathlib.Logic.Relation

namespace Mailroom.Interleaving

/-- How far a pass has come: it has not begun, or has fetched and still has to store some
envelopes before it commits. -/
inductive Stage where
  | idle
  | storing (time : String) (todo : List Envelope) (checkpoint : Checkpoint)

/-- A store, its surroundings and any number of passes. -/
structure World where
  store : Store
  around : Surroundings
  stage : Nat → Stage

namespace World

/-- The world in which a pass has come to a stage. -/
def enter (w : World) (i : Nat) (x : Stage) : World :=
  { w with stage := Function.update w.stage i x }

theorem stage_enter (w : World) (i : Nat) (x : Stage) : (w.enter i x).stage i = x :=
  Function.update_self ..

theorem stage_enter_of_ne (w : World) {i j : Nat} (h : j ≠ i) (x : Stage) :
    (w.enter i x).stage j = w.stage j := Function.update_of_ne h ..

end World

variable {s : StreamSettings} {agent : String}

/-- One step of a pass of the agent on the channel, or lines that come in. A fetch or a
commit may fail, and a pass may end at any time. -/
inductive Step (s : StreamSettings) (agent : String) : World → World → Prop
  | arrive (w : World) (lines : List String) :
      Step s agent w { w with around := s.feed lines w.around }
  | fetch (w : World) (i : Nat) (time : String) (fault : Option TransportFault) (fetched : Fetched)
      (around : Surroundings) (hidle : w.stage i = .idle)
      (hfetch : (stream { s with fetchFault := fault }).fetch w.around = (.ok fetched, around)) :
      Step s agent w
        ({ w with around }.enter i (.storing time fetched.envelopes fetched.checkpoint))
  | fetchFails (w : World) (i : Nat) (fault : Option TransportFault) (e : TransportFault)
      (around : Surroundings) (hidle : w.stage i = .idle)
      (hfetch : (stream { s with fetchFault := fault }).fetch w.around = (.error e, around)) :
      Step s agent w { w with around }
  | store (w : World) (i : Nat) (time : String) (e : Envelope) (todo : List Envelope)
      (checkpoint : Checkpoint) (hstage : w.stage i = .storing time (e :: todo) checkpoint) :
      Step s agent w
        ({ w with store := (ingestAll agent time [e] w.store).1 }.enter i
          (.storing time todo checkpoint))
  | commit (w : World) (i : Nat) (time : String) (checkpoint : Checkpoint)
      (fault : Option TransportFault) (hstage : w.stage i = .storing time [] checkpoint) :
      Step s agent w
        ({ w with
          around := ((stream { s with commitFault := fault }).commit checkpoint w.around).2 }.enter
            i .idle)
  | die (w : World) (i : Nat) : Step s agent w (w.enter i .idle)

/-- Whether some steps lead from one world to another one. -/
abbrev Reaches (s : StreamSettings) (agent : String) : World → World → Prop :=
  Relation.ReflTransGen (Step s agent)

/-! ### Passes that nothing comes in between of -/

theorem ingestAll_cons (agent time : String) (e : Envelope) (es : List Envelope) (s : Store) :
    (ingestAll agent time (e :: es) s).1 =
      (ingestAll agent time es (ingestAll agent time [e] s).1).1 := by
  by_cases hfor : e.isFor agent <;> simp [ingestAll, hfor]

theorem reaches_ingestAll (w : World) {i : Nat} {time : String} {es : List Envelope}
    {checkpoint : Checkpoint} (hstage : w.stage i = .storing time es checkpoint) :
    Reaches s agent w ({ w with store := (ingestAll agent time es w.store).1 }.enter i
      (.storing time [] checkpoint)) := by
  induction es generalizing w with
  | nil =>
    have hsame : w.enter i (.storing time [] checkpoint) = w := by
      rw [World.enter, ← hstage, Function.update_eq_self]
    show Reaches s agent w (w.enter i (.storing time [] checkpoint))
    rw [hsame]
  | cons e es ih =>
    refine .head (.store w i time e es checkpoint hstage) ?_
    -- the envelope is stored first; from the stage after it the others follow
    have hrest := ih _ (World.stage_enter { w with store := (ingestAll agent time [e] w.store).1 }
      i (.storing time es checkpoint))
    rw [ingestAll_cons agent time e es]
    simpa only [World.enter, Function.update_idem] using hrest

/-- A pass that nothing comes in between of is a poll. -/
theorem reaches_poll (w : World) {i : Nat} (hidle : w.stage i = .idle) (time : String)
    (fetchFault commitFault : Option TransportFault) (result : PollResult) (store : Store)
    (around : Surroundings)
    (hpoll : poll agent (stream { s with fetchFault, commitFault }) time w.store w.around =
      (result, store, around)) :
    Reaches s agent w { store, around, stage := w.stage } := by
  unfold poll at hpoll
  split at hpoll
  · rename_i e around' hfetch
    obtain ⟨-, rfl, rfl⟩ := hpoll
    exact .single (.fetchFails w i fetchFault e _ hidle hfetch)
  · rename_i fetched around' hfetch
    -- fetching, storing all that was fetched, and committing, with nothing in between
    have hfetched : Reaches s agent w _ :=
      .single (.fetch w i time fetchFault fetched around' hidle hfetch)
    have hstored := hfetched.trans (reaches_ingestAll _ (World.stage_enter _ i _))
    have hcommit := hstored.tail
      (.commit _ i time fetched.checkpoint commitFault (World.stage_enter _ i _))
    have hstage : Function.update w.stage i .idle = w.stage := by
      rw [← hidle, Function.update_eq_self]
    obtain ⟨rfl, rfl⟩ : (ingestAll agent time fetched.envelopes w.store).1 = store ∧
        ((stream { s with commitFault }).commit fetched.checkpoint around').2 = around := by
      -- a poll ends with this store and this channel whether its commit succeeds or not
      dsimp only at hpoll
      rcases hc : (stream { s with fetchFault, commitFault }).commit fetched.checkpoint around'
        with ⟨_ | _, w'⟩ <;> rw [hc] at hpoll <;> obtain ⟨-, rfl, rfl⟩ := hpoll <;>
        exact ⟨rfl, congrArg Prod.snd hc⟩
    simpa only [World.enter, Function.update_idem, hstage] using hcommit

/-! ### The invariant -/

/-- What has been taken over is stored. A pass under way has seen all lines before its
cursor; what of them it has not stored is in the store already. -/
structure Safe (s : StreamSettings) (agent : String) (w : World) : Prop where
  distinct : w.store.ids.Nodup
  inRange : s.offset w.around ≤ (s.lines w.around).length
  taken : ∀ e ∈ s.envelopesBefore w.around (s.offset w.around), e.isFor agent = true →
    e.id ∈ w.store.ids
  ahead : ∀ i time todo checkpoint, w.stage i = .storing time todo checkpoint →
    ∃ n ≤ (s.lines w.around).length, checkpoint = .cursor (toString n) ∧
      ∀ e ∈ s.envelopesBefore w.around n, e.isFor agent = true → e.id ∈ w.store.ids ∨ e ∈ todo

theorem ingestAll_singleton (agent time : String) (e : Envelope) (s : Store) :
    (ingestAll agent time [e] s).1 = if e.isFor agent then (s.ingest (e.arrived time)).1 else s := by
  unfold ingestAll
  split <;> rfl

/-- Storing an envelope adds at most its row, and its id is there if it is for the agent. -/
theorem adds_ingestAll_singleton (agent time : String) (e : Envelope) (s : Store) :
    (∃ ms, Adds s ms (ingestAll agent time [e] s).1) ∧
      (e.isFor agent = true → e.id ∈ (ingestAll agent time [e] s).1.ids) := by
  rw [ingestAll_singleton]
  split
  · exact ⟨⟨_, adds_ingest s (e.arrived time)⟩, fun _ => mem_ids_ingest.2 (.inr rfl)⟩
  · rename_i hfor
    exact ⟨⟨[], .of_messages_eq rfl⟩, fun h => absurd h hfor⟩

theorem fetch_eq_ok {fault : Option TransportFault} {fetched : Fetched} {w around : Surroundings}
    (h : (stream { s with fetchFault := fault }).fetch w = (.ok fetched, around)) :
    fetched = s.fetch w ∧ around = w := by
  cases fault with
  | some e => exact absurd (Prod.mk.inj h).1 (by simp)
  | none =>
    obtain ⟨hfetched, rfl⟩ := Prod.mk.inj h
    exact ⟨(Except.ok.inj hfetched).symm, rfl⟩

theorem fetch_snd (fault : Option TransportFault) (w : Surroundings) :
    ((stream { s with fetchFault := fault }).fetch w).2 = w := by
  cases fault <;> rfl

theorem commit_snd (fault : Option TransportFault) (checkpoint : Checkpoint) (w : Surroundings) :
    ((stream { s with commitFault := fault }).commit checkpoint w).2 = w ∨
      ((stream { s with commitFault := fault }).commit checkpoint w).2 = s.commit checkpoint w := by
  cases fault with
  | some e => exact .inl rfl
  | none => exact .inr rfl

namespace Safe

variable {w : World}

/-- A pass that ends leaves the others as they are. -/
theorem enter_idle (h : Safe s agent w) (i : Nat) : Safe s agent (w.enter i .idle) where
  distinct := h.distinct
  inRange := h.inRange
  taken := h.taken
  ahead := by
    intro j time todo checkpoint hj
    by_cases hij : j = i
    · subst hij
      rw [World.stage_enter] at hj
      exact absurd hj (by simp)
    · rw [World.stage_enter_of_ne w hij] at hj
      exact h.ahead j time todo checkpoint hj

theorem arrive (h : Safe s agent w) (lines : List String) :
    Safe s agent { w with around := s.feed lines w.around } where
  distinct := h.distinct
  inRange := by
    rw [s.offset_feed, s.lines_feed, List.length_append]
    exact Nat.le_add_right_of_le h.inRange
  taken := by
    rw [s.offset_feed, s.envelopesBefore_feed w.around h.inRange]
    exact h.taken
  ahead := by
    intro i time todo checkpoint hi
    obtain ⟨n, hn, hcursor, hseen⟩ := h.ahead i time todo checkpoint hi
    refine ⟨n, ?_, hcursor, ?_⟩
    · rw [s.lines_feed, List.length_append]
      exact Nat.le_add_right_of_le hn
    · rw [s.envelopesBefore_feed w.around hn]
      exact hseen

theorem fetch (h : Safe s agent w) (i : Nat) (time : String) : Safe s agent
    (w.enter i (.storing time (s.fetch w.around).envelopes (s.fetch w.around).checkpoint)) where
  distinct := h.distinct
  inRange := h.inRange
  taken := h.taken
  ahead := by
    intro j time' todo checkpoint hj
    by_cases hij : j = i
    · subst hij
      rw [World.stage_enter] at hj
      obtain ⟨-, rfl, rfl⟩ := Stage.storing.inj hj
      -- the cursor is the end of the channel: a line before it stands before the offset, and
      -- is taken over, or after it, and is among what has been fetched
      refine ⟨(s.lines w.around).length, Nat.le_refl _, rfl, ?_⟩
      intro e he hfor
      rcases s.mem_envelopesBefore_length w.around he with he | he
      · exact .inl (h.taken e he hfor)
      · exact .inr he
    · rw [World.stage_enter_of_ne w hij] at hj
      exact h.ahead j time' todo checkpoint hj

theorem store (h : Safe s agent w) {i : Nat} {time : String} {e : Envelope}
    {todo : List Envelope} {checkpoint : Checkpoint}
    (hstage : w.stage i = .storing time (e :: todo) checkpoint) : Safe s agent
      ({ w with store := (ingestAll agent time [e] w.store).1 }.enter i
        (.storing time todo checkpoint)) := by
  obtain ⟨⟨ms, hadds⟩, hheld⟩ := adds_ingestAll_singleton agent time e w.store
  refine ⟨hadds.nodup_ids h.distinct, h.inRange, ?_, ?_⟩
  · exact fun x hx hfor => hadds.subset_ids (h.taken x hx hfor)
  · intro j time' todo' checkpoint' hj
    by_cases hij : j = i
    · subst hij
      rw [World.stage_enter] at hj
      obtain ⟨-, rfl, rfl⟩ := Stage.storing.inj hj
      -- of what this pass had still to store, one envelope has moved into the store
      obtain ⟨n, hn, hcursor, hseen⟩ := h.ahead j time (e :: todo) checkpoint hstage
      refine ⟨n, hn, hcursor, ?_⟩
      intro x hx hfor
      rcases hseen x hx hfor with hin | hin
      · exact .inl (hadds.subset_ids hin)
      · rcases List.mem_cons.1 hin with rfl | hin
        · exact .inl (hheld hfor)
        · exact .inr hin
    · rw [World.stage_enter_of_ne _ hij] at hj
      -- the other passes only find more in the store than before
      obtain ⟨n, hn, hcursor, hseen⟩ := h.ahead j time' todo' checkpoint' hj
      refine ⟨n, hn, hcursor, ?_⟩
      intro x hx hfor
      exact (hseen x hx hfor).imp_left fun hin => hadds.subset_ids hin

/-- The cursor of a pass with nothing left to store may become the offset, wherever the
offset is by then. -/
theorem commit (h : Safe s agent w) {i : Nat} {time : String} {checkpoint : Checkpoint}
    (hstage : w.stage i = .storing time [] checkpoint) :
    Safe s agent { w with around := s.commit checkpoint w.around } := by
  obtain ⟨n, hn, rfl, hseen⟩ := h.ahead i time [] checkpoint hstage
  refine ⟨h.distinct, ?_, ?_, ?_⟩
  · rw [s.offset_commit, s.lines_commit]
    exact hn
  · -- nothing is left to store, so all lines before the cursor are taken over
    rw [s.offset_commit, StreamSettings.envelopesBefore, s.lines_commit]
    intro e he hfor
    exact (hseen e he hfor).resolve_right List.not_mem_nil
  · -- what a pass has seen depends on the lines only, and not on the offset
    intro j time' todo checkpoint hj
    obtain ⟨k, hk, hcursor, hseen⟩ := h.ahead j time' todo checkpoint hj
    refine ⟨k, ?_, hcursor, ?_⟩
    · rw [s.lines_commit]
      exact hk
    · rw [StreamSettings.envelopesBefore, s.lines_commit]
      exact hseen

end Safe

theorem safe_step {w w' : World} (h : Safe s agent w) (hstep : Step s agent w w') :
    Safe s agent w' := by
  cases hstep with
  | arrive lines => exact h.arrive lines
  | fetch i time fault fetched around hidle hfetch =>
    obtain ⟨rfl, rfl⟩ := fetch_eq_ok hfetch
    exact h.fetch i time
  | fetchFails i fault e around hidle hfetch =>
    obtain rfl : around = w.around := by rw [← fetch_snd (s := s) fault w.around, hfetch]
    exact h
  | store i time e todo checkpoint hstage => exact h.store hstage
  | commit i time checkpoint fault hstage =>
    rcases commit_snd (s := s) fault checkpoint w.around with hw | hw <;> rw [hw]
    · exact h.enter_idle i
    · exact (h.commit hstage).enter_idle i
  | die i => exact h.enter_idle i

theorem safe_of_reaches {w w' : World} (h : Safe s agent w) (hreach : Reaches s agent w w') :
    Safe s agent w' := by
  induction hreach with
  | refl => exact h
  | tail _ hstep ih => exact safe_step ih hstep

/-! ### Nothing is lost -/

theorem isPrefix_of_step {w w' : World} (hstep : Step s agent w w') :
    w.store.messages <+: w'.store.messages := by
  cases hstep with
  | store i time e todo checkpoint hstage =>
    obtain ⟨⟨ms, hadds⟩, -⟩ := adds_ingestAll_singleton agent time e w.store
    exact ⟨_, hadds.messages.symm⟩
  | arrive | fetch | fetchFails | commit | die => exact List.prefix_rfl

theorem isPrefix_of_reaches {w w' : World} (hreach : Reaches s agent w w') :
    w.store.messages <+: w'.store.messages := by
  induction hreach with
  | refl => exact List.prefix_rfl
  | tail _ hstep ih => exact ih.trans (isPrefix_of_step hstep)

/-- A world in which nothing has been taken over and no pass is under way. -/
structure World.Fresh (s : StreamSettings) (w : World) : Prop where
  distinct : w.store.ids.Nodup
  offset : s.offset w.around = 0
  idle : ∀ i, w.stage i = .idle

theorem World.Fresh.safe {w : World} (h : w.Fresh s) : Safe s agent w where
  distinct := h.distinct
  inRange := by
    rw [h.offset]
    exact Nat.zero_le _
  taken := by simp [h.offset, StreamSettings.envelopesBefore]
  ahead := by
    intro i time todo checkpoint hi
    rw [h.idle i] at hi
    exact absurd hi (by simp)

/-- However the steps of the passes come in between each other: every envelope for the
agent before the offset is stored, nothing is stored twice, and nothing stored is lost. -/
theorem taken_over_is_stored {w w' : World} (hfresh : w.Fresh s) (hreach : Reaches s agent w w') :
    (∀ line ∈ (s.lines w'.around).take (s.offset w'.around), ∀ e,
      Envelope.decode? line = some e → e.recipient = agent ∨ e.recipient = everyone →
        ∃ r ∈ w'.store.messages, r.id = e.id) ∧
    w'.store.ids.Nodup ∧
    ∀ w'', Reaches s agent w' w'' → w'.store.messages <+: w''.store.messages := by
  have hsafe : Safe s agent w' := safe_of_reaches hfresh.safe hreach
  refine ⟨?_, hsafe.distinct, fun w'' h => isPrefix_of_reaches h⟩
  intro line hline e hdecode hfor
  have hbefore : e ∈ s.envelopesBefore w'.around (s.offset w'.around) :=
    List.mem_filterMap.2 ⟨line, hline, hdecode⟩
  have hisFor : e.isFor agent = true := by simpa [Envelope.isFor] using hfor
  exact List.mem_map.1 (hsafe.taken e hbefore hisFor)

/-- One line for the agent `b` has come in on a channel of its own. -/
def oneLineIn : World where
  store := .empty
  around := Surroundings.bare.setChannel "wire"
    ⟨["AIMAIL:1|m1|a|b|request|normal|none|aGk="], [], 0⟩
  stage _ := .idle

/-- A pass fetches one line; another pass takes over two, and then the first one commits. -/
theorem taken_over_is_stored_slow_pass :
    ∃ w, Reaches (.plain "wire") "b" oneLineIn w ∧
      (StreamSettings.plain "wire").offset w.around = 1 ∧ w.store.ids = ["m1", "m2"] ∧
      (∀ line ∈ ((StreamSettings.plain "wire").lines w.around).take 1, ∀ e,
        Envelope.decode? line = some e → e.recipient = "b" ∨ e.recipient = everyone →
          ∃ r ∈ w.store.messages, r.id = e.id) := by
  have hfresh : oneLineIn.Fresh (.plain "wire") := ⟨by decide, rfl, fun _ => rfl⟩
  -- pass 0 fetches and waits, pass 1 polls, pass 0 goes on with its older cursor
  have hslow : Reaches (.plain "wire") "b" oneLineIn _ :=
    .single (.fetch oneLineIn 0 "" none _ _ rfl rfl)
  have hline := hslow.tail (.arrive _ ["AIMAIL:1|m2|a|all|request|normal|none|aGk="])
  have hfast := hline.trans (reaches_poll _ (i := 1) rfl "" none none _ _ _ rfl)
  have hstored := hfast.trans (reaches_ingestAll _ (i := 0) rfl)
  have hback := hstored.tail (.commit _ 0 _ _ none (World.stage_enter _ 0 _))
  exact ⟨_, hback, by decide +kernel, by decide +kernel, (taken_over_is_stored hfresh hback).1⟩

end Mailroom.Interleaving
