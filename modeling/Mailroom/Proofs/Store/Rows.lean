/-
Rows and what they stand for.

A row stands for a message or an agent if and only if it is the row of that message or agent, so
that reading rows loses nothing and adds nothing.

* `toMessage_eq_ok_iff`, `toAgent_eq_ok_iff` — what one row stands for;
* `has_row` — the status in a row;
* `mapM_toMessage_eq_ok_iff` — what several rows stand for;
* `exists_map_row_eq` — rows that all stand for messages are the rows of messages;
* `pairwise_mergeSort_text` — rows sorted by a text stand in its order.
-/
import Mailroom.Proofs.Outcome
import Mailroom.Store.Messages
import Mathlib.Data.String.Basic

namespace Mailroom

theorem named_eq_ok_iff {α : Type} {ofName? : String → Option α} {refusal : String → InputFault}
    {text : String} {x : α} : named ofName? refusal text = .ok x ↔ ofName? text = some x := by
  unfold named
  cases ofName? text with
  | none => exact ⟨nofun, nofun⟩
  | some y => rw [Except.ok.injEq, Option.some.injEq]

theorem column_eq_ok_iff {α : Type} {index : Nat} {parse : String → Except InputFault α}
    {text : String} {x : α} : column index parse text = .ok x ↔ parse text = .ok x :=
  mapError_eq_ok

theorem toMessage_eq_ok_iff {r : MessageRow} {m : Message} : r.toMessage = .ok m ↔ m.row = r := by
  constructor
  · intro h
    simp only [MessageRow.toMessage, bind_eq_ok, pure_eq_ok, column_eq_ok_iff] at h
    obtain ⟨type, htype, priority, hpriority, status, hstatus, rfl⟩ := h
    -- a name that stands for a value is the name of that value
    rw [Message.row, MessageType.name_of_ofName? (named_eq_ok_iff.1 htype),
      Priority.name_of_ofName? (named_eq_ok_iff.1 hpriority),
      MessageStatus.name_of_ofName? (named_eq_ok_iff.1 hstatus)]
  · rintro rfl
    exact toMessage_row m

theorem row_injective {m n : Message} (h : m.row = n.row) : m = n := by
  have hm : m.row.toMessage = .ok n := toMessage_eq_ok_iff.2 h.symm
  rw [toMessage_row, Except.ok.injEq] at hm
  exact hm

theorem has_row {m : Message} {x : MessageStatus} : m.row.has x = true ↔ m.status = x := by
  rw [MessageRow.has, beq_iff_eq]
  exact ⟨MessageStatus.name_injective, fun h => h ▸ rfl⟩

theorem mapM_toMessage_eq_ok_iff {rows : List MessageRow} {ms : List Message} :
    rows.mapM MessageRow.toMessage = .ok ms ↔ ms.map Message.row = rows :=
  mapM_eq_ok_iff_map fun _ _ => toMessage_eq_ok_iff

theorem exists_map_row_eq {rows : List MessageRow}
    (h : ∀ r ∈ rows, ∃ m, r.toMessage = .ok m) : ∃ ms : List Message, ms.map Message.row = rows := by
  obtain ⟨ms, hms⟩ := exists_mapM_eq_ok.2 h
  exact ⟨ms, mapM_toMessage_eq_ok_iff.1 hms⟩

theorem toAgent_eq_ok_iff {r : AgentRow} {a : Agent} : r.toAgent = .ok a ↔ a.row = r := by
  constructor
  · intro h
    simp only [AgentRow.toAgent, bind_eq_ok, pure_eq_ok, column_eq_ok_iff] at h
    obtain ⟨status, hstatus, rfl⟩ := h
    rw [Agent.row, AgentStatus.name_of_ofName? (named_eq_ok_iff.1 hstatus)]
  · rintro rfl
    exact toAgent_row a

theorem pairwise_mergeSort_text {α : Type} (text : α → String) (rows : List α) :
    (rows.mergeSort fun a b => text a ≤ text b).Pairwise fun a b => text a ≤ text b := by
  have htrans : ∀ a b c : α, decide (text a ≤ text b) = true → decide (text b ≤ text c) = true →
      decide (text a ≤ text c) = true := by
    intro a b c hab hbc
    exact decide_eq_true (le_trans (of_decide_eq_true hab) (of_decide_eq_true hbc))
  have htotal : ∀ a b : α, (decide (text a ≤ text b) || decide (text b ≤ text a)) = true := by
    intro a b
    rw [Bool.or_eq_true, decide_eq_true_eq, decide_eq_true_eq]
    exact le_total (text a) (text b)
  exact (List.pairwise_mergeSort htrans htotal rows).imp of_decide_eq_true

end Mailroom
