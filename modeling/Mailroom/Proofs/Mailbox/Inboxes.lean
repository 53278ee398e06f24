/-
What an inbox lists.

* `mem_inboxRows` — the rows of an inbox;
* `exists_check` — an inbox can be listed if and only if each of these rows stands for a
  message;
* `mem_of_check` — then it lists exactly their messages;
* `Gains` — what an unread inbox gains between two stores;
* `gains_of_append` — of new unread messages, each agent gains those that are for it.
-/
import Mailroom.Mailbox.Inbox
import Mailroom.Proofs.Outcome
import Mailroom.Proofs.Store.Growth
import Mailroom.Proofs.Store.Rows
import Mathlib.Data.List.Perm.Basic

namespace Mailroom

variable {s : Store} {agent : String} {unreadOnly : Bool}

theorem mem_inboxRows {r : MessageRow} : r ∈ s.inboxRows agent unreadOnly ↔
    r ∈ s.messages ∧ r.isFor agent = true ∧
      (if unreadOnly then r.has .unread else !r.has .archived) = true := by
  rw [Store.inboxRows, List.mem_mergeSort, List.mem_filter, Bool.and_eq_true]

theorem isFor_row {m : Message} {x : String} :
    m.row.isFor x = true ↔ m.recipient = x ∨ m.recipient = everyone := by
  rw [MessageRow.isFor, Bool.or_eq_true, beq_iff_eq, beq_iff_eq]
  rfl

theorem check_eq_ok {inbox : Inbox} : s.check agent unreadOnly = .ok inbox ↔
    ∃ messages, (s.inboxRows agent unreadOnly).mapM MessageRow.toMessage = .ok messages ∧
      inbox = ⟨agent, messages, (s.counts agent).total, (s.counts agent).unread⟩ := by
  simp only [Store.check, Store.inbox, bind_eq_ok, pure_eq_ok, mapError_eq_ok,
    eq_comm (b := inbox)]

theorem exists_check : (∃ inbox, s.check agent unreadOnly = .ok inbox) ↔
    ∀ r ∈ s.inboxRows agent unreadOnly, ∃ m, r.toMessage = .ok m := by
  rw [← exists_mapM_eq_ok]
  constructor
  · rintro ⟨inbox, h⟩
    obtain ⟨messages, hrows, -⟩ := check_eq_ok.1 h
    exact ⟨messages, hrows⟩
  · rintro ⟨messages, hrows⟩
    exact ⟨_, check_eq_ok.2 ⟨messages, hrows, rfl⟩⟩

theorem mem_of_check {inbox : Inbox} (h : s.check agent unreadOnly = .ok inbox) (m : Message) :
    m ∈ inbox.messages ↔ ∃ r ∈ s.inboxRows agent unreadOnly, r.toMessage = .ok m := by
  obtain ⟨messages, hrows, rfl⟩ := check_eq_ok.1 h
  exact mem_of_mapM_eq_ok hrows m

/-! ### What an inbox gains -/

/-- The unread inbox of an agent holds what it held and these messages. -/
structure Gains (s s' : Store) (agent : String) (ms : List Message) : Prop where
  rows : (s'.inboxRows agent true).Perm (ms.map Message.row ++ s.inboxRows agent true)
  listed : ∀ before, s.inbox agent true = .ok before →
    ∃ after, s'.inbox agent true = .ok after ∧ after.Perm (ms ++ before)

theorem gains_of_perm {s' : Store} {ms : List Message}
    (h : (s'.inboxRows agent true).Perm (ms.map Message.row ++ s.inboxRows agent true)) :
    Gains s s' agent ms := by
  refine ⟨h, fun before hbefore => ?_⟩
  have hold := mapM_toMessage_eq_ok_iff.1 hbefore
  rw [← hold, ← List.map_append] at h
  -- all rows of the new inbox are rows of messages, so it can be listed
  have hall : ∀ r ∈ s'.inboxRows agent true, ∃ m, r.toMessage = .ok m := by
    intro r hr
    obtain ⟨m, -, hm⟩ := List.mem_map.1 (h.mem_iff.1 hr)
    exact ⟨m, toMessage_eq_ok_iff.2 hm⟩
  obtain ⟨after, hafter⟩ := exists_map_row_eq hall
  refine ⟨after, mapM_toMessage_eq_ok_iff.2 hafter, ?_⟩
  rw [← hafter] at h
  exact (List.map_perm_map_iff fun _ _ => row_injective).1 h

theorem gains_of_append {s' : Store} {ms : List Message}
    (hrows : s'.messages = s.messages ++ ms.map Message.row)
    (hunread : ∀ m ∈ ms, m.status = .unread) (agent : String) :
    Gains s s' agent (ms.filter (·.row.isFor agent)) := by
  refine gains_of_perm ?_
  have hnew : (ms.map Message.row).filter (fun r => r.isFor agent && r.has .unread) =
      (ms.filter (·.row.isFor agent)).map Message.row := by
    rw [List.filter_map]
    refine congrArg _ (List.filter_congr fun m hm => ?_)
    have hhas : m.row.has .unread = true := by
      rw [MessageRow.has, Message.row, hunread m hm]
      exact beq_self_eq_true _
    show (m.row.isFor agent && m.row.has .unread) = _
    rw [hhas, Bool.and_true]
  have hperm : (s'.inboxRows agent true).Perm
      (s'.messages.filter fun r => r.isFor agent && r.has .unread) := List.mergeSort_perm ..
  rw [hrows, List.filter_append, hnew] at hperm
  exact hperm.trans (List.perm_append_comm.trans ((List.mergeSort_perm ..).symm.append_left _))

end Mailroom
