/-
The roster as the summary of its history.

A roster that was empty at first holds one entry for every agent that has ever joined. The agent
has been there since it first joined, was last seen at the last call about it, takes part if that
call was to join, and works in the role and at the place that it named when it joined last. Which
calls count depends on the calls before: nobody leaves who has never joined.

* `RosterCall.refusal?` — why a call is refused, by what was accepted before it;
* `RosterCall.accepted` — the calls of a run that are not refused;
* `Agent.SumsUp`, `Store.SumsUp` — an entry and a roster sum up some calls;
* `sumsUp_register`, `sumsUp_setStatus` — what a call does to a roster that sums up the calls
  before it (`sumsUp_accept`), and `answer_eq_error_iff` — when it is refused;
* `sumsUp_run` — so the roster sums up the accepted calls of every run;
* `AgentRow.place`, `exists_listing` — the order in which agents are listed;
* `roster_sums_up_history` — the roster after any calls, and all that is read off it.
-/
import Mailroom.Proofs.Store.RosterHistory
import Mathlib.Data.List.Induction
import Mathlib.Data.Prod.Lex

namespace Mailroom

variable {σ : Type}

/-! ### Accepted calls -/

namespace RosterCall

/-- The id that a call is about. -/
def about : RosterCall σ → String
  | register b r _ => b.idOr r.id
  | deregister b given _ => b.idOr given

/-- When a call is made. -/
def time : RosterCall σ → String
  | register _ _ time => time
  | deregister _ _ time => time

/-- Whether a call is to join. -/
def joins : RosterCall σ → Bool
  | register .. => true
  | deregister .. => false

/-- What a call answers. -/
def answer (s : Store) : RosterCall σ → Except Error Agent
  | register b r time => (b.register r time s).1
  | deregister b given time => (b.deregister given time s).1

/-- The calls of a run that are not refused. -/
def accepted (s : Store) : List (RosterCall σ) → List (RosterCall σ)
  | [] => []
  | call :: calls =>
    (if (call.answer s).isOk then [call] else []) ++ accepted (call.perform s) calls

/-- Why a call is refused after some accepted ones, if it is: an id cannot stand on the roster, or
nobody of the id has joined. -/
def refusal? (past : List (RosterCall σ)) : RosterCall σ → Option Error
  | register b r _ =>
    if isEnrollable (b.idOr r.id) then none else some (.input (.badAgentId (b.idOr r.id)))
  | deregister b given _ =>
    if past.any fun call => call.joins && call.about == b.idOr given then none
    else some (.notFound (.agent (b.idOr given)))

theorem run_append_call (s : Store) (calls : List (RosterCall σ)) (call : RosterCall σ) :
    run s (calls ++ [call]) = call.perform (run s calls) :=
  List.foldl_append ..

theorem accepted_append_call (s : Store) (calls : List (RosterCall σ)) (call : RosterCall σ) :
    accepted s (calls ++ [call]) =
      accepted s calls ++ if (call.answer (run s calls)).isOk then [call] else [] := by
  induction calls generalizing s with
  | nil => exact List.append_nil _
  | cons c calls ih =>
    rw [List.cons_append, accepted, accepted, ih, List.append_assoc]
    rfl

end RosterCall

/-! ### Entries that sum up calls -/

/-- The calls about an id. -/
def callsAbout (calls : List (RosterCall σ)) (id : String) : List (RosterCall σ) :=
  calls.filter (·.about == id)

/-- An entry sums up those of some calls that are about its id. -/
structure Agent.SumsUp (a : Agent) (calls : List (RosterCall σ)) : Prop where
  /-- it has been there since the first call to join -/
  since : ((callsAbout calls a.id).filter (·.joins)).head?.map (·.time) = some a.registeredAt
  /-- it was last seen at the last call -/
  seen : (callsAbout calls a.id).getLast?.map (·.time) = some a.lastSeenAt
  /-- it is active if the last call was to join -/
  active_iff : a.status = .active ↔
    (callsAbout calls a.id).getLast?.map (·.joins) = some true
  /-- role and place are those of the last call to join -/
  joined : ∃ b r time,
    ((callsAbout calls a.id).filter (·.joins)).getLast? = some (.register b r time) ∧
      a.role = (Text.nonBlank? r.role).getD defaultRole ∧
      a.branch = (Text.nonBlank? r.branch).or b.identity.branch ∧
      a.worktree = (Text.nonBlank? r.worktree).or b.identity.worktree

/-- A roster has one entry for each id that has joined, and the entries sum up the calls. -/
structure Store.SumsUp (s : Store) (calls : List (RosterCall σ)) : Prop where
  mem_ids : ∀ id, id ∈ s.agentIds ↔ ∃ call ∈ calls, call.joins = true ∧ call.about = id
  entries : ∀ r ∈ s.roster, ∃ a : Agent, a.row = r ∧ a.SumsUp calls

section

variable {calls : List (RosterCall σ)} {call : RosterCall σ} {id : String}

theorem callsAbout_append_of_ne (h : call.about ≠ id) :
    callsAbout (calls ++ [call]) id = callsAbout calls id := by
  rw [callsAbout, List.filter_append, List.filter_cons_of_neg (by simpa using h), List.filter_nil,
    List.append_nil]
  rfl

theorem callsAbout_append_self (h : call.about = id) :
    callsAbout (calls ++ [call]) id = callsAbout calls id ++ [call] := by
  rw [callsAbout, List.filter_append, List.filter_cons_of_pos (by simpa using h), List.filter_nil]
  rfl

namespace Agent.SumsUp

variable {a : Agent}

theorem append_of_ne (h : a.SumsUp calls) (hne : call.about ≠ a.id) :
    a.SumsUp (calls ++ [call]) := by
  refine ⟨?_, ?_, ?_, ?_⟩
  all_goals rw [callsAbout_append_of_ne hne]
  · exact h.since
  · exact h.seen
  · exact h.active_iff
  · exact h.joined

/-- An entry after another call to join. -/
theorem rejoin (h : a.SumsUp calls) {b : Mailbox σ} {r : Registration} {time : String}
    (hid : b.idOr r.id = a.id) :
    Agent.SumsUp ⟨a.id, (Text.nonBlank? r.role).getD defaultRole,
      (Text.nonBlank? r.branch).or b.identity.branch,
      (Text.nonBlank? r.worktree).or b.identity.worktree, .active, a.registeredAt, time⟩
      (calls ++ [RosterCall.register b r time]) := by
  have hcalls : callsAbout (calls ++ [RosterCall.register b r time]) a.id =
      callsAbout calls a.id ++ [RosterCall.register b r time] := callsAbout_append_self hid
  have hjoins : ((callsAbout calls a.id ++ [RosterCall.register b r time]).filter (·.joins)) =
      (callsAbout calls a.id).filter (·.joins) ++ [RosterCall.register b r time] := by
    rw [List.filter_append]
    rfl
  refine ⟨?_, ?_, ?_, ?_⟩
  all_goals dsimp only
  · -- the first call to join stands before this one
    obtain ⟨first, hfirst, htime⟩ := Option.map_eq_some_iff.1 h.since
    rw [hcalls, hjoins, List.head?_append, hfirst, Option.some_or, Option.map_some, htime]
  · rw [hcalls, List.getLast?_concat]
    rfl
  · rw [hcalls, List.getLast?_concat]
    exact ⟨fun _ => rfl, fun _ => rfl⟩
  · refine ⟨b, r, time, ?_, rfl, rfl, rfl⟩
    rw [hcalls, hjoins, List.getLast?_concat]

/-- An entry after a call to leave. -/
theorem leave (h : a.SumsUp calls) {b : Mailbox σ} {given : Option String} {time : String}
    (hid : b.idOr given = a.id) :
    Agent.SumsUp { a with status := .inactive, lastSeenAt := time }
      (calls ++ [RosterCall.deregister b given time]) := by
  have hcalls : callsAbout (calls ++ [RosterCall.deregister b given time]) a.id =
      callsAbout calls a.id ++ [RosterCall.deregister b given time] := callsAbout_append_self hid
  have hjoins : ((callsAbout calls a.id ++ [RosterCall.deregister b given time]).filter
      (·.joins)) = (callsAbout calls a.id).filter (·.joins) := by
    rw [List.filter_append]
    exact List.append_nil _
  refine ⟨?_, ?_, ?_, ?_⟩
  all_goals dsimp only
  · rw [hcalls, hjoins]
    exact h.since
  · rw [hcalls, List.getLast?_concat]
    rfl
  · rw [hcalls, List.getLast?_concat]
    exact ⟨nofun, nofun⟩
  · rw [hcalls, hjoins]
    exact h.joined

end Agent.SumsUp

/-- The entry of an agent that joins for the first time. -/
theorem sumsUp_of_new {b : Mailbox σ} {r : Registration} {time : String}
    (hnew : ∀ call ∈ calls, call.joins = true → call.about ≠ b.idOr r.id) :
    Agent.SumsUp ⟨b.idOr r.id, (Text.nonBlank? r.role).getD defaultRole,
      (Text.nonBlank? r.branch).or b.identity.branch,
      (Text.nonBlank? r.worktree).or b.identity.worktree, .active, time, time⟩
      (calls ++ [RosterCall.register b r time]) := by
  have hcalls : callsAbout (calls ++ [RosterCall.register b r time]) (b.idOr r.id) =
      callsAbout calls (b.idOr r.id) ++ [RosterCall.register b r time] :=
    callsAbout_append_self rfl
  have hnone : (callsAbout calls (b.idOr r.id)).filter (·.joins) = [] := by
    rw [List.filter_eq_nil_iff]
    intro call hcall hjoins
    obtain ⟨hmem, habout⟩ := List.mem_filter.1 hcall
    exact hnew call hmem hjoins (beq_iff_eq.1 habout)
  have hjoins : ((callsAbout calls (b.idOr r.id) ++ [RosterCall.register b r time]).filter
      (·.joins)) = [RosterCall.register b r time] := by
    rw [List.filter_append, hnone]
    rfl
  refine ⟨?_, ?_, ?_, ?_⟩
  all_goals dsimp only
  · rw [hcalls, hjoins]
    rfl
  · rw [hcalls, List.getLast?_concat]
    rfl
  · rw [hcalls, List.getLast?_concat]
    exact ⟨fun _ => rfl, fun _ => rfl⟩
  · refine ⟨b, r, time, ?_, rfl, rfl, rfl⟩
    rw [hcalls, hjoins]
    rfl

end

/-! ### One call -/

theorem exists_requireAgent {s : Store} {id : String} (hid : id ∈ s.agentIds)
    (hrows : ∀ r ∈ s.roster, r.id = id → ∃ a, r.toAgent = .ok a) :
    ∃ a, s.requireAgent id = .ok a := by
  obtain ⟨r, hr, hrid⟩ := List.mem_map.1 hid
  have hsome : (s.roster.find? (·.id == id)).isSome :=
    List.find?_isSome.2 ⟨r, hr, beq_iff_eq.2 hrid⟩
  obtain ⟨r', hr'⟩ := Option.isSome_iff_exists.1 hsome
  obtain ⟨a, ha⟩ := hrows r' (List.mem_of_find?_eq_some hr') (by simpa using List.find?_some hr')
  refine ⟨a, ?_⟩
  rw [Store.requireAgent, Store.agent?, hr']
  dsimp only
  rw [ha]
  rfl

theorem toAgent_of_status {r : AgentRow} {x : AgentStatus} (h : r.status = x.name) :
    ∃ a, r.toAgent = .ok a := by
  refine ⟨⟨r.id, r.role, r.branch, r.worktree, x, r.registeredAt, r.lastSeenAt⟩, ?_⟩
  rw [toAgent_eq_ok_iff, Agent.row, ← h]

section

variable {s : Store} {calls : List (RosterCall σ)}

theorem perform_register (s : Store) {b : Mailbox σ} {r : Registration} (time : String)
    (h : isEnrollable (b.idOr r.id) = true) :
    (∃ a, (RosterCall.register b r time).answer s = .ok a) ∧
      (RosterCall.register b r time).perform s =
        s.register (b.idOr r.id) ((Text.nonBlank? r.role).getD defaultRole)
          ((Text.nonBlank? r.branch).or b.identity.branch)
          ((Text.nonBlank? r.worktree).or b.identity.worktree) time := by
  rw [RosterCall.answer, RosterCall.perform, Mailbox.register, if_pos h]
  refine ⟨exists_requireAgent ?_ ?_, rfl⟩
  · rw [Store.agentIds_register]
    split
    · exact Store.knows_iff.1 ‹_›
    · exact List.mem_append_right _ (List.mem_singleton_self _)
  · -- a row of this id is the one that was written
    intro row hrow hid
    refine toAgent_of_status (x := .active) ?_
    unfold Store.register at hrow
    split at hrow
    · obtain ⟨old, -, rfl⟩ := List.mem_map.1 hrow
      split at hid
      · rw [if_pos ‹_›]
      · exact absurd hid ‹_›
    · rename_i hunknown
      rcases List.mem_append.1 hrow with hrow | hrow
      · exact absurd (Store.knows_iff.2 (List.mem_map.2 ⟨row, hrow, hid⟩)) hunknown
      · rw [List.mem_singleton.1 hrow]

theorem perform_deregister {b : Mailbox σ} {given : Option String} (time : String)
    (h : b.idOr given ∈ s.agentIds) :
    (∃ a, (RosterCall.deregister b given time).answer s = .ok a) ∧
      (RosterCall.deregister b given time).perform s =
        (s.setStatus (b.idOr given) .inactive time).1 := by
  have hset : s.setStatus (b.idOr given) .inactive time =
      ((s.setStatus (b.idOr given) .inactive time).1, true) :=
    Prod.ext rfl (Store.knows_iff.2 h)
  rw [RosterCall.answer, RosterCall.perform, Mailbox.deregister, hset]
  refine ⟨exists_requireAgent ?_ ?_, rfl⟩
  · rwa [Store.agentIds_setStatus]
  · intro row hrow hid
    refine toAgent_of_status (x := .inactive) ?_
    obtain ⟨old, -, rfl⟩ := List.mem_map.1 hrow
    split at hid
    · rw [if_pos ‹_›]
    · exact absurd hid ‹_›

/-- A call about an id that is not there, or cannot be there, is refused and changes nothing. -/
theorem perform_of_refusal (hs : s.SumsUp calls) {call : RosterCall σ} {e : Error}
    (h : call.refusal? calls = some e) :
    call.answer s = .error e ∧ call.perform s = s := by
  cases call with
  | register b r time =>
    rw [RosterCall.refusal?] at h
    split at h
    · exact absurd h nofun
    · rename_i hid
      obtain rfl := Option.some.inj h
      rw [RosterCall.answer, RosterCall.perform, Mailbox.register, if_neg hid]
      exact ⟨rfl, rfl⟩
  | deregister b given time =>
    rw [RosterCall.refusal?] at h
    split at h
    · exact absurd h nofun
    · rename_i hany
      obtain rfl := Option.some.inj h
      have hid : b.idOr given ∉ s.agentIds := by
        rw [hs.mem_ids]
        rintro ⟨call, hcall, hjoins, habout⟩
        refine hany (List.any_eq_true.2 ⟨call, hcall, ?_⟩)
        rw [hjoins, habout, beq_self_eq_true]
        rfl
      have hrow : ∀ row ∈ s.roster, (if row.id = b.idOr given then
          { row with status := AgentStatus.inactive.name, lastSeenAt := time } else row) = row :=
        fun row hrow => if_neg fun heq => hid (List.mem_map.2 ⟨row, hrow, heq⟩)
      have hset : s.setStatus (b.idOr given) .inactive time = (s, false) := by
        refine Prod.ext ?_ (Bool.eq_false_of_not_eq_true (mt Store.knows_iff.1 hid))
        show { s with roster := _ } = s
        rw [List.map_congr_left hrow, List.map_id']
      rw [RosterCall.answer, RosterCall.perform, Mailbox.deregister, hset]
      exact ⟨rfl, rfl⟩

/-- A roster after a call to join. -/
theorem sumsUp_register (hs : s.SumsUp calls) (b : Mailbox σ) (r : Registration) (time : String) :
    (s.register (b.idOr r.id) ((Text.nonBlank? r.role).getD defaultRole)
      ((Text.nonBlank? r.branch).or b.identity.branch)
      ((Text.nonBlank? r.worktree).or b.identity.worktree) time).SumsUp
      (calls ++ [RosterCall.register b r time]) := by
  refine ⟨fun id => ?_, fun row hrow => ?_⟩
  · rw [Store.agentIds_register]
    simp only [List.mem_append, List.mem_singleton, or_and_right, exists_or, exists_eq_left,
      ← hs.mem_ids]
    show _ ↔ _ ∨ true = true ∧ b.idOr r.id = id
    split
    · refine ⟨.inl, fun hin => hin.elim (fun hin => hin) ?_⟩
      rintro ⟨-, rfl⟩
      exact Store.knows_iff.1 ‹_›
    · rw [List.mem_append, List.mem_singleton, eq_comm (a := id)]
      exact or_congr_right ⟨fun heq => ⟨rfl, heq⟩, And.right⟩
  · unfold Store.register at hrow
    split at hrow
    · obtain ⟨old, hold, rfl⟩ := List.mem_map.1 hrow
      obtain ⟨a, rfl, ha⟩ := hs.entries old hold
      by_cases haid : a.row.id = b.idOr r.id
      · rw [if_pos haid]
        exact ⟨_, rfl, ha.rejoin haid.symm⟩
      · rw [if_neg haid]
        exact ⟨a, rfl, ha.append_of_ne (Ne.symm haid)⟩
    · -- who is not on the roster has never joined
      rename_i hunknown
      have hnew : ∀ call ∈ calls, call.joins = true → call.about ≠ b.idOr r.id :=
        fun call hcall hjoins habout =>
          hunknown (Store.knows_iff.2 ((hs.mem_ids _).2 ⟨call, hcall, hjoins, habout⟩))
      rcases List.mem_append.1 hrow with hrow | hrow
      · obtain ⟨a, rfl, ha⟩ := hs.entries row hrow
        refine ⟨a, rfl, ha.append_of_ne fun heq => hunknown (Store.knows_iff.2 ?_)⟩
        exact List.mem_map.2 ⟨a.row, hrow, heq.symm⟩
      · rw [List.mem_singleton.1 hrow]
        exact ⟨_, rfl, sumsUp_of_new hnew⟩

/-- A roster after a call to leave. -/
theorem sumsUp_setStatus (hs : s.SumsUp calls) (b : Mailbox σ) (given : Option String)
    (time : String) : (s.setStatus (b.idOr given) .inactive time).1.SumsUp
      (calls ++ [RosterCall.deregister b given time]) := by
  refine ⟨fun id => ?_, fun row hrow => ?_⟩
  · rw [Store.agentIds_setStatus, hs.mem_ids]
    simp only [List.mem_append, List.mem_singleton, or_and_right, exists_or, exists_eq_left]
    exact (or_iff_left fun hleft => absurd hleft.1 nofun).symm
  · obtain ⟨old, hold, rfl⟩ := List.mem_map.1 hrow
    obtain ⟨a, rfl, ha⟩ := hs.entries old hold
    by_cases haid : a.row.id = b.idOr given
    · rw [if_pos haid]
      exact ⟨_, rfl, ha.leave haid.symm⟩
    · rw [if_neg haid]
      exact ⟨a, rfl, ha.append_of_ne (Ne.symm haid)⟩

/-- What a call does that is not refused. -/
theorem sumsUp_accept (hs : s.SumsUp calls) {call : RosterCall σ}
    (h : call.refusal? calls = none) :
    (∃ a, call.answer s = .ok a) ∧ (call.perform s).SumsUp (calls ++ [call]) := by
  cases call with
  | register b r time =>
    have hid : isEnrollable (b.idOr r.id) = true := by
      rw [RosterCall.refusal?] at h
      by_contra hnot
      rw [if_neg hnot] at h
      exact absurd h nofun
    obtain ⟨hanswer, hperform⟩ := perform_register s time hid
    rw [hperform]
    exact ⟨hanswer, sumsUp_register hs b r time⟩
  | deregister b given time =>
    have hid : b.idOr given ∈ s.agentIds := by
      rw [RosterCall.refusal?] at h
      by_contra hnot
      rw [if_neg] at h
      · exact absurd h nofun
      · intro hany
        obtain ⟨call, hcall, hjoined⟩ := List.any_eq_true.1 hany
        obtain ⟨hjoins, habout⟩ := Bool.and_eq_true_iff.1 hjoined
        exact hnot ((hs.mem_ids _).2 ⟨call, hcall, hjoins, beq_iff_eq.1 habout⟩)
    obtain ⟨hanswer, hperform⟩ := perform_deregister time hid
    rw [hperform]
    exact ⟨hanswer, sumsUp_setStatus hs b given time⟩

/-- A call fails for the reasons that the calls before it give, and then changes nothing. -/
theorem answer_eq_error_iff (hs : s.SumsUp calls) {call : RosterCall σ} {e : Error} :
    (call.answer s = .error e ↔ call.refusal? calls = some e) ∧
      (call.answer s = .error e → call.perform s = s) := by
  cases hrefused : call.refusal? calls with
  | none =>
    obtain ⟨⟨a, ha⟩, -⟩ := sumsUp_accept hs hrefused
    rw [ha]
    exact ⟨⟨nofun, nofun⟩, nofun⟩
  | some e' =>
    obtain ⟨he', hsame⟩ := perform_of_refusal hs hrefused
    rw [he', Except.error.injEq, Option.some.injEq]
    exact ⟨.rfl, fun _ => hsame⟩

/-! ### A run -/

theorem sumsUp_run (hs : s.roster = []) (calls : List (RosterCall σ)) :
    (RosterCall.run s calls).SumsUp (RosterCall.accepted s calls) := by
  induction calls using List.reverseRecOn with
  | nil =>
    refine ⟨fun id => ?_, fun r hr => ?_⟩
    · show id ∈ s.roster.map _ ↔ _
      rw [hs]
      refine ⟨fun hid => absurd hid List.not_mem_nil, ?_⟩
      rintro ⟨call, hcall, -⟩
      exact absurd hcall List.not_mem_nil
    · rw [RosterCall.run, List.foldl_nil, hs] at hr
      exact absurd hr List.not_mem_nil
  | append_singleton calls call ih =>
    rw [RosterCall.accepted_append_call, RosterCall.run_append_call]
    cases hrefused : call.refusal? (RosterCall.accepted s calls) with
    | none =>
      obtain ⟨⟨a, ha⟩, hsums⟩ := sumsUp_accept ih hrefused
      rw [ha, if_pos (show (Except.ok a : Except Error Agent).isOk = true from rfl)]
      exact hsums
    | some e =>
      obtain ⟨he, hsame⟩ := perform_of_refusal ih hrefused
      rwa [he, hsame, if_neg (show ¬ (Except.error e : Except Error Agent).isOk = true from nofun),
        List.append_nil]

end

/-! ### The order of a listing -/

/-- An agent is listed before another one: it was seen later, or at the same time and has the
smaller id. -/
def Agent.ListedBefore (a b : Agent) : Prop :=
  b.lastSeenAt < a.lastSeenAt ∨ a.lastSeenAt = b.lastSeenAt ∧ a.id < b.id

instance (a b : Agent) : Decidable (a.ListedBefore b) := inferInstanceAs (Decidable (_ ∨ _ ∧ _))

namespace AgentRow

open OrderDual in
/-- The place of an entry in a listing: times go down, and ids of one time go up. -/
def place (r : AgentRow) : Stringᵒᵈ ×ₗ String := toLex (toDual r.lastSeenAt, r.id)

theorem precedes_iff_place {a b : AgentRow} : a.precedes b = true ↔ a.place ≤ b.place := by
  simp [precedes, place, Prod.Lex.toLex_le_toLex]

end AgentRow

theorem listedBefore_iff {a b : Agent} : a.ListedBefore b ↔ a.row.place < b.row.place := by
  rw [AgentRow.place, AgentRow.place, Prod.Lex.toLex_lt_toLex]
  rfl

section

variable {rows : List AgentRow} (hids : (rows.map (·.id)).Nodup)

include hids

theorem pairwise_listing : (rows.mergeSort AgentRow.precedes).Pairwise
    fun a b => a.place < b.place := by
  have htrans : ∀ a b c : AgentRow, a.precedes b → b.precedes c → a.precedes c := by
    simp only [AgentRow.precedes_iff_place]
    exact fun a b c => le_trans
  have htotal : ∀ a b : AgentRow, (a.precedes b || b.precedes a) = true := by
    simp only [Bool.or_eq_true, AgentRow.precedes_iff_place]
    exact fun a b => le_total _ _
  have hdistinct : (rows.mergeSort AgentRow.precedes).Pairwise fun a b => a.id ≠ b.id :=
    List.pairwise_map.1 (((List.mergeSort_perm ..).map _).nodup_iff.2 hids)
  refine ((List.pairwise_mergeSort htrans htotal rows).and hdistinct).imp ?_
  rintro a b ⟨hle, hne⟩
  refine lt_of_le_of_ne (AgentRow.precedes_iff_place.1 hle) fun heq => hne ?_
  exact congrArg (fun place => (ofLex place).2) heq

/-- Entries with distinct ids have one order, so it does not matter when some are left out. -/
theorem mergeSort_filter_listing (p : AgentRow → Bool) :
    (rows.filter p).mergeSort AgentRow.precedes =
      (rows.mergeSort AgentRow.precedes).filter p := by
  have hperm : ((rows.filter p).mergeSort AgentRow.precedes).Perm
      ((rows.mergeSort AgentRow.precedes).filter p) :=
    (List.mergeSort_perm ..).trans ((List.mergeSort_perm ..).filter p).symm
  refine hperm.eq_of_pairwise (fun a b _ _ hab hba => absurd hba (lt_asymm hab))
    (pairwise_listing ?_) ((pairwise_listing hids).filter p)
  exact (List.filter_sublist.map _).nodup hids

end

theorem agentRow_injective : Function.Injective Agent.row := fun a b h => by
  have hread := toAgent_row a
  rw [h, toAgent_row, Except.ok.injEq] at hread
  exact hread.symm

theorem isActive_row (a : Agent) : a.row.isActive = (a.status == .active) := by
  rw [AgentRow.isActive, Agent.row]
  cases a.status <;> rfl

/-- All agents, and the active ones, in the order of a listing. -/
theorem exists_listing {s : Store} (hids : s.agentIds.Nodup)
    (hrows : ∀ r ∈ s.roster, ∃ a : Agent, a.row = r) :
    ∃ listed : List Agent, listed.map Agent.row = s.roster.mergeSort AgentRow.precedes ∧
      listed.Pairwise Agent.ListedBefore ∧ s.agents false = .ok listed ∧
      s.agents true = .ok (listed.filter (·.status == .active)) := by
  obtain ⟨listed, hread⟩ : ∃ listed,
      (s.roster.mergeSort AgentRow.precedes).mapM AgentRow.toAgent = .ok listed := by
    refine exists_mapM_eq_ok.2 fun r hr => ?_
    obtain ⟨a, ha⟩ := hrows r (List.mem_mergeSort.1 hr)
    exact ⟨a, toAgent_eq_ok_iff.2 ha⟩
  have hlisted := (mapM_eq_ok_iff_map fun _ _ => toAgent_eq_ok_iff).1 hread
  refine ⟨listed, hlisted, ?_, ?_, ?_⟩
  · have hordered := pairwise_listing hids
    rw [← hlisted, List.pairwise_map] at hordered
    exact hordered.imp listedBefore_iff.2
  · have hall : s.roster.filter (fun r => !false || r.isActive) = s.roster :=
      List.filter_eq_self.2 fun _ _ => rfl
    rw [Store.agents, hall, hread]
  · have hactive : ((s.roster.filter fun r => !true || r.isActive).mergeSort
        AgentRow.precedes) = (listed.filter (·.status == .active)).map Agent.row := by
      rw [mergeSort_filter_listing hids, ← hlisted, List.filter_map]
      exact congrArg (List.map Agent.row) (List.filter_congr fun a _ => isActive_row a)
    rw [Store.agents, hactive, mapM_eq_ok_iff_map fun _ _ => toAgent_eq_ok_iff]

/-- A listing is known by its entries and their order. -/
theorem agents_eq_of_perm {s : Store} (hids : s.agentIds.Nodup) {listed : List Agent}
    (hperm : s.roster.Perm (listed.map Agent.row)) (hordered : listed.Pairwise Agent.ListedBefore) :
    s.agents false = .ok listed := by
  obtain ⟨listed', hrows, hordered', hagents, -⟩ := exists_listing hids fun r hr =>
    (List.mem_map.1 (hperm.mem_iff.1 hr)).imp fun _ => And.right
  have hsorted : (listed'.map Agent.row).Perm (listed.map Agent.row) := by
    rw [hrows]
    exact (List.mergeSort_perm ..).trans hperm
  have hplaces : ∀ agents : List Agent, agents.Pairwise Agent.ListedBefore →
      (agents.map Agent.row).Pairwise fun a b => a.place < b.place := fun agents h =>
    List.pairwise_map.2 (h.imp listedBefore_iff.1)
  have hsame : listed'.map Agent.row = listed.map Agent.row :=
    hsorted.eq_of_pairwise (fun a b _ _ hab hba => absurd hba (lt_asymm hab))
      (hplaces _ hordered') (hplaces _ hordered)
  rw [hagents, List.map_injective_iff.2 agentRow_injective hsame]

/-- Those to whom a broadcast goes, from a listing. -/
theorem mem_activeExcept_of_perm {s : Store} {listed : List Agent}
    (hperm : (listed.map Agent.row).Perm s.roster) {id x : String} :
    x ∈ s.activeExcept id ↔ x ≠ id ∧ ∃ a ∈ listed, a.status = .active ∧ a.id = x := by
  rw [Store.mem_activeExcept]
  refine and_congr_right fun _ => ?_
  constructor
  · rintro ⟨r, hr, hactive, rfl⟩
    obtain ⟨a, ha, rfl⟩ := List.mem_map.1 (hperm.mem_iff.2 hr)
    rw [isActive_row] at hactive
    exact ⟨a, ha, beq_iff_eq.1 hactive, rfl⟩
  · rintro ⟨a, ha, hactive, rfl⟩
    refine ⟨a.row, hperm.mem_iff.1 (List.mem_map_of_mem ha), ?_, rfl⟩
    rw [isActive_row, hactive]
    rfl

/-! ### The roster after any calls -/

/-- After any calls on a roster that was empty, whether they were accepted or not, it lists one
entry for each id that has joined, and each sums up the accepted calls about its id. A call is
refused for its id alone or because nobody of the id has joined, and then changes nothing. The
active agents and those that a broadcast is for are the active ones of the listing. -/
theorem roster_sums_up_history {s : Store} (hs : s.roster = []) (calls : List (RosterCall σ)) :
    ∃ listed : List Agent, (RosterCall.run s calls).agents false = .ok listed ∧
      (listed.map (·.id)).Nodup ∧
      (∀ id, id ∈ listed.map (·.id) ↔
        ∃ call ∈ RosterCall.accepted s calls, call.joins = true ∧ call.about = id) ∧
      (∀ a ∈ listed, a.SumsUp (RosterCall.accepted s calls) ∧ a.id ≠ everyone ∧
        isWireSafe a.id = true) ∧
      listed.Pairwise Agent.ListedBefore ∧
      (RosterCall.run s calls).agents true = .ok (listed.filter (·.status == .active)) ∧
      (∀ id, ((RosterCall.run s calls).activeExcept id).Pairwise (· < ·) ∧
        ∀ x, x ∈ (RosterCall.run s calls).activeExcept id ↔
          x ≠ id ∧ ∃ a ∈ listed, a.status = .active ∧ a.id = x) ∧
      ∀ before call after, calls = before ++ call :: after → ∀ e,
        (call.answer (RosterCall.run s before) = .error e ↔
          call.refusal? (RosterCall.accepted s before) = some e) ∧
        (call.answer (RosterCall.run s before) = .error e →
          call.perform (RosterCall.run s before) = RosterCall.run s before) := by
  have hsound : (RosterCall.run s calls).RosterSound :=
    rosterSound_run (rosterSound_empty.of_roster_eq hs) calls
  have hsums := sumsUp_run hs calls
  obtain ⟨listed, hlisted, hordered, hall, hactive⟩ :=
    exists_listing hsound.distinct fun r hr => (hsums.entries r hr).imp fun _ => And.left
  have hperm : (listed.map Agent.row).Perm (RosterCall.run s calls).roster := by
    rw [hlisted]
    exact List.mergeSort_perm ..
  have hids : (listed.map (·.id)).Perm (RosterCall.run s calls).agentIds := by
    have hmapped := hperm.map (·.id)
    rwa [List.map_map] at hmapped
  refine ⟨listed, hall, hids.nodup_iff.2 hsound.distinct, fun id => ?_, fun a ha => ?_, hordered,
    hactive, fun id => ⟨Store.pairwise_activeExcept hsound id, fun x => ?_⟩,
    fun before call after _ e => ?_⟩
  · rw [hids.mem_iff, hsums.mem_ids]
  · have hmem := hperm.mem_iff.1 (List.mem_map_of_mem ha)
    obtain ⟨a', hrow, ha'⟩ := hsums.entries _ hmem
    obtain rfl : a' = a := agentRow_injective hrow
    have hid := hsound.enrollable a'.id (List.mem_map_of_mem hmem)
    rw [isEnrollable, Bool.and_eq_true, bne_iff_ne] at hid
    exact ⟨ha', hid⟩
  · exact mem_activeExcept_of_perm hperm
  · exact answer_eq_error_iff (sumsUp_run hs before)

/-! ### Two mailboxes -/

/-- A mailbox whose agent cannot join under its own id. -/
def hallMailbox : Mailbox Unit := ⟨⟨everyone, none, none⟩, .empty, .here, none⟩

/-- A mailbox whose agent works on a branch. -/
def branchMailbox : Mailbox Unit :=
  ⟨⟨"a", some "feature/a", some "/work/a"⟩, .empty, .here, none⟩

/-- `a` joins and leaves, and `b` joins twice; between these, `all` tries to join and `b` to leave
before it has joined. -/
def comingsAndGoings : List (RosterCall Unit) :=
  [.register branchMailbox ⟨none, none, none, none⟩ "2025-01-01",
    .register hallMailbox ⟨none, some "host", none, none⟩ "2025-01-02",
    .deregister hallMailbox (some "b") "2025-01-03",
    .register hallMailbox ⟨some " b ", some "reviewer", none, none⟩ "2025-01-04",
    .deregister branchMailbox none "2025-01-05",
    .register branchMailbox ⟨some "b", some " ", none, some "/work/b"⟩ "2025-01-06"]

/-- The entry of `b`, with the role and the place of the second time. -/
def entryOfB : Agent :=
  ⟨"b", "worker", some "feature/a", some "/work/b", .active, "2025-01-04", "2025-01-06"⟩

/-- The entry of `a`, who has left. -/
def entryOfA : Agent :=
  ⟨"a", "worker", some "feature/a", some "/work/a", .inactive, "2025-01-01", "2025-01-05"⟩

theorem roster_sums_up_history_comingsAndGoings :
    Store.empty.roster = [] ∧
      (RosterCall.run .empty comingsAndGoings).agents false = .ok [entryOfB, entryOfA] ∧
      entryOfB.SumsUp (RosterCall.accepted .empty comingsAndGoings) ∧
      entryOfA.SumsUp (RosterCall.accepted .empty comingsAndGoings) ∧
      (RosterCall.run .empty comingsAndGoings).agents true = .ok [entryOfB] := by
  have hempty : Store.empty.roster = [] := rfl
  have hroster : (RosterCall.run .empty comingsAndGoings).roster =
      [entryOfA.row, entryOfB.row] := by decide +kernel
  have hentries : (RosterCall.run .empty comingsAndGoings).agents false =
      .ok [entryOfB, entryOfA] := by
    refine agents_eq_of_perm ?_ ?_ (by decide)
    · rw [Store.agentIds, hroster]
      decide
    · rw [hroster]
      exact .swap ..
  obtain ⟨listed, hlisted, -, -, hsums, -, hactive, -⟩ :=
    roster_sums_up_history hempty comingsAndGoings
  obtain rfl : [entryOfB, entryOfA] = listed := Except.ok.inj (hentries.symm.trans hlisted)
  exact ⟨hempty, hentries, (hsums _ (by decide)).1, (hsums _ (by decide)).1, hactive⟩

end Mailroom
