/-
The history of a roster.

A roster comes about by agents that join and leave, one after another. A call that is
refused leaves the roster as it is, and any other one adds at most one entry.

* `RosterCall`, `RosterCall.run` — such calls, and the store after them;
* `agentIds_perform` — what a call does to the ids on the roster;
* `rosterSound_run` — every id stands there once, and none of them means everyone;
* `mem_activeExcept`, `pairwise_activeExcept` — the active agents but one, in order.
-/
import Mailroom.Mailbox.Enrolment
import Mailroom.Proofs.Store.Rows
import Mathlib.Data.List.Nodup

namespace Mailroom

variable {σ : Type}

/-- An agent joins or leaves at a mailbox. -/
inductive RosterCall (σ : Type) where
  | register (b : Mailbox σ) (r : Registration) (time : String)
  | deregister (b : Mailbox σ) (given : Option String) (time : String)

namespace RosterCall

/-- The store after a call, whether it was refused or not. -/
def perform (s : Store) : RosterCall σ → Store
  | register b r time => (b.register r time s).2
  | deregister b given time => (b.deregister given time s).2

/-- The store after several calls. -/
def run (s : Store) (calls : List (RosterCall σ)) : Store := calls.foldl perform s

end RosterCall

namespace Store

/-- The ids on the roster. -/
def agentIds (s : Store) : List String := s.roster.map (·.id)

theorem knows_iff {s : Store} {id : String} : s.knows id = true ↔ id ∈ s.agentIds := by
  simp [knows, agentIds]

/-- Every id stands on the roster once, and only ids that can stand there do. -/
structure RosterSound (s : Store) : Prop where
  distinct : s.agentIds.Nodup
  enrollable : ∀ id ∈ s.agentIds, isEnrollable id = true

theorem agentIds_map (s : Store) (f : AgentRow → AgentRow) (hf : ∀ r, (f r).id = r.id) :
    agentIds { s with roster := s.roster.map f } = s.agentIds := by
  show (s.roster.map f).map (·.id) = s.roster.map (·.id)
  rw [List.map_map]
  exact List.map_congr_left fun r _ => hf r

theorem agentIds_register (s : Store) (id role : String) (branch worktree : Option String)
    (time : String) : (s.register id role branch worktree time).agentIds =
      if s.knows id then s.agentIds else s.agentIds ++ [id] := by
  unfold register
  split
  · refine agentIds_map s _ fun r => ?_
    split
    · rfl
    · rfl
  · simp [agentIds]

theorem agentIds_setStatus (s : Store) (id : String) (status : AgentStatus) (time : String) :
    (s.setStatus id status time).1.agentIds = s.agentIds := by
  refine agentIds_map s _ fun r => ?_
  split
  · rfl
  · rfl

end Store

/-- A call adds no id to the roster, or one that is new and can stand there. -/
theorem agentIds_perform (s : Store) (call : RosterCall σ) :
    (call.perform s).agentIds = s.agentIds ∨
      ∃ id, isEnrollable id = true ∧ id ∉ s.agentIds ∧
        (call.perform s).agentIds = s.agentIds ++ [id] := by
  cases call with
  | register b r time =>
    unfold RosterCall.perform Mailbox.register
    by_cases hid : isEnrollable (b.idOr r.id)
    · simp only [hid, if_true, Store.agentIds_register]
      split
      · exact .inl rfl
      · rename_i hnew
        exact .inr ⟨_, hid, fun h => hnew (Store.knows_iff.2 h), rfl⟩
    · simp [hid]
  | deregister b given time =>
    refine .inl ?_
    have hset := s.agentIds_setStatus (b.idOr given) .inactive time
    unfold RosterCall.perform Mailbox.deregister
    dsimp only
    generalize s.setStatus (b.idOr given) .inactive time = changed at hset ⊢
    rcases changed with ⟨s', _ | _⟩
    · exact hset
    · exact hset

theorem rosterSound_perform {s : Store} (hs : s.RosterSound) (call : RosterCall σ) :
    (call.perform s).RosterSound := by
  rcases agentIds_perform s call with h | ⟨id, hid, hnew, h⟩
  · exact ⟨h ▸ hs.distinct, h ▸ hs.enrollable⟩
  · refine ⟨?_, ?_⟩
    · rw [h, List.nodup_append]
      refine ⟨hs.distinct, List.nodup_singleton id, ?_⟩
      intro x hx y hy hxy
      obtain rfl := List.mem_singleton.1 hy
      exact hnew (hxy ▸ hx)
    · intro x hx
      rw [h] at hx
      rcases List.mem_append.1 hx with hx | hx
      · exact hs.enrollable x hx
      · rw [List.mem_singleton.1 hx]
        exact hid

theorem rosterSound_run {s : Store} (hs : s.RosterSound) (calls : List (RosterCall σ)) :
    (RosterCall.run s calls).RosterSound := by
  induction calls generalizing s with
  | nil => exact hs
  | cons call calls ih => exact ih (rosterSound_perform hs call)

theorem rosterSound_empty : Store.empty.RosterSound := ⟨List.nodup_nil, by
  intro id h
  exact absurd h List.not_mem_nil⟩

namespace Store

variable {s : Store}

theorem RosterSound.of_roster_eq {s' : Store} (hs : s.RosterSound) (h : s'.roster = s.roster) :
    s'.RosterSound := by
  have hids : s'.agentIds = s.agentIds := by rw [agentIds, h, agentIds]
  exact ⟨hids ▸ hs.distinct, hids ▸ hs.enrollable⟩

/-! ### The active agents but one -/

theorem mem_activeExcept {id x : String} :
    x ∈ s.activeExcept id ↔ x ≠ id ∧ ∃ r ∈ s.roster, r.isActive = true ∧ r.id = x := by
  simp only [activeExcept, List.mem_mergeSort, List.mem_map, List.mem_filter, Bool.and_eq_true,
    bne_iff_ne]
  constructor
  · rintro ⟨r, ⟨hr, hactive, hne⟩, rfl⟩
    exact ⟨hne, r, hr, hactive, rfl⟩
  · rintro ⟨hne, r, hr, hactive, rfl⟩
    exact ⟨r, ⟨hr, hactive, hne⟩, rfl⟩

theorem everyone_not_mem_activeExcept (hs : s.RosterSound) (id : String) :
    everyone ∉ s.activeExcept id := by
  intro h
  obtain ⟨-, r, hr, -, hid⟩ := mem_activeExcept.1 h
  have henrollable := hs.enrollable everyone (List.mem_map.2 ⟨r, hr, hid⟩)
  exact absurd henrollable (by decide)

theorem pairwise_activeExcept (hs : s.RosterSound) (id : String) :
    (s.activeExcept id).Pairwise (· < ·) := by
  have hsorted : (s.activeExcept id).Pairwise (· ≤ ·) := pairwise_mergeSort_text (fun x => x) _
  have hdistinct : (s.activeExcept id).Nodup :=
    (List.mergeSort_perm ..).nodup_iff.2 ((List.filter_sublist.map _).nodup hs.distinct)
  -- in order and no two of them the same
  exact (hsorted.and hdistinct).imp fun h => lt_of_le_of_ne h.1 h.2

end Store

end Mailroom
