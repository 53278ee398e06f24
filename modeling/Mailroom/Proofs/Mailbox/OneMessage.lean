/-
One message in a store.

Where ids are distinct, a message is the only one of its id. Looking for the id then finds it,
and marking it changes it alone, or nothing if its status does not allow for the change.

* `Store.HasOnly` — the only row of an id is that of a message;
* `hasOnly_of_mem` — so it is for every message that is stored, where ids are distinct;
* `HasOnly.require`, `HasOnly.markRead`, `HasOnly.markArchived` — the operations on it.
-/
import Mailroom.Proofs.Mailbox.Reading

namespace Mailroom

namespace Store

/-- The only row of the id of a message is that of the message. -/
def HasOnly (s : Store) (m : Message) : Prop := s.messages.filter (·.id == m.id) = [m.row]

theorem hasOnly_of_mem {s : Store} {m : Message} (hids : s.ids.Nodup) (hm : m.row ∈ s.messages) :
    s.HasOnly m := filter_id_eq_singleton hids hm

namespace HasOnly

variable {s : Store} {m : Message}

theorem require (h : s.HasOnly m) : s.require m.id = .ok m := by
  have hfind : s.messages.find? (·.id == m.id) = some m.row := by
    rw [← List.head?_filter, h]
    rfl
  rw [Store.require, get?_of_find? hfind]

section

variable {p : MessageRow → Bool} {f : MessageRow → MessageRow}

theorem count_updateWhere (h : s.HasOnly m) :
    (s.updateWhere (fun r => r.id == m.id && p r) f).2 = if p m.row then 1 else 0 := by
  have hcount : s.messages.countP (fun r => r.id == m.id && p r) =
      (s.messages.filter (·.id == m.id)).countP p := by
    rw [List.countP_filter]
    exact List.countP_congr fun r _ => by rw [Bool.and_comm]
  show s.messages.countP _ = _
  rw [hcount, h, List.countP_singleton]

theorem mark (h : s.HasOnly m) (hp : p m.row = true) (hf : ∀ r, (f r).id = r.id) {m' : Message}
    (hm' : m'.row = f m.row) :
    (s.updateWhere (fun r => r.id == m.id && p r) f).1.HasOnly m' ∧
      decide (0 < (s.updateWhere (fun r => r.id == m.id && p r) f).2) = true := by
  have hid : m'.id = m.id := by
    rw [← id_row, hm', hf, id_row]
  -- the rows of the id are the same before the update and after it
  have hkeep : ((·.id == m.id) ∘ fun r => if (r.id == m.id && p r) = true then f r else r) =
      (·.id == m.id) := by
    funext r
    show ((if _ then f r else r).id == m.id) = _
    split
    · rw [hf]
    · rfl
  have hrow : (m.row.id == m.id && p m.row) = true := by simp [hp]
  refine ⟨?_, ?_⟩
  · rw [HasOnly, hid]
    show (s.messages.map _).filter _ = _
    rw [List.filter_map, hkeep, h, List.map_singleton, if_pos hrow, hm']
  · rw [h.count_updateWhere, if_pos hp]
    rfl

theorem mark_of_not (h : s.HasOnly m) (hp : ¬ p m.row = true) :
    (s.updateWhere (fun r => r.id == m.id && p r) f).1 = s ∧
      decide (0 < (s.updateWhere (fun r => r.id == m.id && p r) f).2) = false := by
  have hcount : (s.updateWhere (fun r => r.id == m.id && p r) f).2 = 0 := by
    rw [h.count_updateWhere, if_neg hp]
  refine ⟨updateWhere_of_count_eq_zero hcount, ?_⟩
  rw [hcount]
  rfl

end

theorem markRead (h : s.HasOnly m) (hs : m.status = .unread) (time : String) :
    ∃ s', s.markRead m.id time = (s', true) ∧ s'.HasOnly (m.readNow time) := by
  obtain ⟨honly, hchanged⟩ := h.mark (p := fun r => r.has .unread)
    (f := fun r => { r with status := MessageStatus.read.name, readAt := some time })
    (has_row.2 hs) (fun _ => rfl) (show (m.readNow time).row = _ from rfl)
  exact ⟨_, Prod.ext rfl hchanged, honly⟩

theorem markRead_of_not (h : s.HasOnly m) (hs : m.status ≠ .unread) (time : String) :
    s.markRead m.id time = (s, false) := by
  obtain ⟨hsame, hchanged⟩ := h.mark_of_not (p := fun r => r.has .unread)
    (f := fun r => { r with status := MessageStatus.read.name, readAt := some time })
    (mt has_row.1 hs)
  exact Prod.ext hsame hchanged

theorem markArchived (h : s.HasOnly m) (hs : m.status ≠ .archived) (time : String) :
    ∃ s', s.markArchived m.id time = (s', true) ∧ s'.HasOnly (m.archivedNow time) := by
  have hp : (!m.row.has .archived) = true := by
    rw [Bool.not_eq_true', Bool.eq_false_iff]
    exact mt has_row.1 hs
  obtain ⟨honly, hchanged⟩ := h.mark (p := fun r => !r.has .archived)
    (f := fun r => { r with status := MessageStatus.archived.name, archivedAt := some time })
    hp (fun _ => rfl) (show (m.archivedNow time).row = _ from rfl)
  exact ⟨_, Prod.ext rfl hchanged, honly⟩

theorem markArchived_of_not (h : s.HasOnly m) (hs : m.status = .archived) (time : String) :
    s.markArchived m.id time = (s, false) := by
  have hp : ¬ (!m.row.has .archived) = true := by
    rw [has_row.2 hs]
    exact Bool.false_ne_true
  obtain ⟨hsame, hchanged⟩ := h.mark_of_not (p := fun r => !r.has .archived)
    (f := fun r => { r with status := MessageStatus.archived.name, archivedAt := some time }) hp
  exact Prod.ext hsame hchanged

end HasOnly

end Store

end Mailroom
