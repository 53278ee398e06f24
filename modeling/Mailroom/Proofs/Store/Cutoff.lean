/-
What a cutoff picks out of a store.

The rows that are handed to a memory, those that are archived and those that are deleted
are found by three questions to the store, at three moments of a pruning. The answers fit
together, because archiving makes no row prunable.

* `snd_deleteArchivedBefore` — as many rows are deleted as are prunable;
* `countPrunable_archiveReadBefore` — as many rows are prunable after archiving as before;
* `perm_prunableRows`, `pairwise_prunableRows` — the prunable rows, each once and in order;
* `exists_prunableOfTypes` — what is found for the memory, when all rows stand for messages.
-/
import Mailroom.Proofs.Store.Lifecycle
import Mailroom.Proofs.Store.Rows

namespace Mailroom

namespace Store

variable {s : Store} {cutoff time : String}

theorem snd_deleteWhere (s : Store) (p : MessageRow → Bool) :
    (s.deleteWhere p).2 = s.messages.countP p := by
  have hparts := s.messages.length_eq_countP_add_countP p
  have hkept : s.messages.countP (fun r => decide ¬p r = true) =
      (s.messages.filter (!p ·)).length := by
    rw [List.countP_eq_length_filter]
    refine congrArg List.length (List.filter_congr fun r _ => ?_)
    cases p r <;> rfl
  show s.messages.length - (s.messages.filter (!p ·)).length = _
  omega

/-- The rows that are gone are those that a report has counted. -/
theorem snd_deleteArchivedBefore (s : Store) (cutoff : String) :
    (s.deleteArchivedBefore cutoff).2 = s.countPrunable cutoff :=
  s.snd_deleteWhere _

theorem countPrunable_archiveReadBefore (hle : ¬ time < cutoff) :
    (s.archiveReadBefore cutoff time).1.countPrunable cutoff = s.countPrunable cutoff := by
  show (s.messages.map _).countP _ = s.messages.countP _
  rw [List.countP_map]
  refine List.countP_congr fun r _ => ?_
  show MessageRow.isPrunable cutoff _ = true ↔ _
  rw [isPrunable_archived hle]

theorem perm_prunableRows (s : Store) (cutoff : String) :
    (s.prunableRows cutoff).Perm (s.messages.filter (·.isPrunable cutoff)) :=
  List.mergeSort_perm ..

theorem pairwise_prunableRows (s : Store) (cutoff : String) :
    (s.prunableRows cutoff).Pairwise fun a b => a.archivedAt.getD "" ≤ b.archivedAt.getD "" :=
  pairwise_mergeSort_text (fun r : MessageRow => r.archivedAt.getD "") _

/-- Choosing by the type of a message is choosing by the type in its row. -/
theorem contains_type (types : List MessageType) (m : Message) :
    types.contains m.type = types.any (·.name == m.row.type) := by
  rw [Bool.eq_iff_iff, List.contains_iff_mem, List.any_eq_true]
  constructor
  · intro hm
    exact ⟨m.type, hm, beq_self_eq_true _⟩
  · rintro ⟨type, hmem, hname⟩
    rw [← MessageType.name_injective (beq_iff_eq.1 hname)]
    exact hmem

/-- The messages that are found for the memory are those of the prunable rows of the given
types, oldest first. -/
theorem exists_prunableOfTypes (hrows : ∀ r ∈ s.messages, ∃ m, r.toMessage = .ok m)
    (cutoff : String) (types : List MessageType) :
    ∃ ms, s.prunableOfTypes cutoff types = .ok ms ∧
      (ms.map Message.row).Perm (s.messages.filter fun r =>
        r.isPrunable cutoff && types.any (·.name == r.type)) ∧
      ms.Pairwise fun a b => a.archivedAt.getD "" ≤ b.archivedAt.getD "" := by
  have hprunable : ∀ r ∈ s.prunableRows cutoff, ∃ m, r.toMessage = .ok m := fun r hr =>
    hrows r (List.mem_of_mem_filter ((perm_prunableRows s cutoff).mem_iff.1 hr))
  obtain ⟨all, hall⟩ := exists_map_row_eq hprunable
  refine ⟨all.filter fun m => types.contains m.type, ?_, ?_, ?_⟩
  · rw [prunableOfTypes, mapM_toMessage_eq_ok_iff.2 hall]
    rfl
  · have hmap : (all.filter fun m => types.contains m.type).map Message.row =
        (s.prunableRows cutoff).filter fun r => types.any (·.name == r.type) := by
      rw [← hall, List.filter_map]
      exact congrArg _ (List.filter_congr fun m _ => contains_type types m)
    have hboth : (s.messages.filter (·.isPrunable cutoff)).filter
        (fun r => types.any (·.name == r.type)) =
          s.messages.filter fun r => r.isPrunable cutoff && types.any (·.name == r.type) := by
      rw [List.filter_filter]
      exact List.filter_congr fun r _ => Bool.and_comm ..
    rw [hmap, ← hboth]
    exact (perm_prunableRows s cutoff).filter _
  · have hsorted := pairwise_prunableRows s cutoff
    rw [← hall, List.pairwise_map] at hsorted
    exact hsorted.filter _

end Store

end Mailroom
