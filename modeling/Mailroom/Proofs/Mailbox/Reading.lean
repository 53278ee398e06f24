/-
Reading and archiving one message.

Both look at the message, change its row if the status allows for it, and look again. In
a sound store the second look finds what the first one found, so a refusal can only come
before the change.

* `Store.AltersOnly` — nothing has changed but rows of one id;
* `Store.Sound.exists_require` — what is stored in a sound store can be looked at;
* `altersOnly_read`, `altersOnly_archive` — reading and archiving;
* `read_of_error`, `archive_of_error` — what is refused changes nothing.
-/
import Mailroom.Mailbox.Inbox
import Mailroom.Proofs.Store.Lifecycle

namespace Mailroom

namespace Store

/-- Nothing in a store has changed but rows of one id, which keep it. -/
structure AltersOnly (id : String) (s s' : Store) : Prop where
  rows : List.Forall₂ (fun r r' => r'.id = r.id ∧ (r.id ≠ id → r' = r)) s.messages s'.messages
  roster : s'.roster = s.roster
  version : s'.version = s.version

theorem AltersOnly.refl (id : String) (s : Store) : AltersOnly id s s :=
  ⟨List.forall₂_same.2 fun _ _ => ⟨rfl, fun _ => rfl⟩, rfl, rfl⟩

variable {s : Store} {id time : String}

theorem altersOnly_updateWhere {p : MessageRow → Bool} {f : MessageRow → MessageRow}
    (hp : ∀ r, p r = true → r.id = id) (hf : ∀ r, (f r).id = r.id) :
    AltersOnly id s (s.updateWhere p f).1 := by
  refine ⟨?_, rfl, rfl⟩
  rw [updateWhere, List.forall₂_map_right_iff, List.forall₂_same]
  intro r _
  by_cases h : p r
  · rw [if_pos h]
    exact ⟨hf r, fun hid => absurd (hp r h) hid⟩
  · rw [if_neg h]
    exact ⟨rfl, fun _ => rfl⟩

theorem updateWhere_of_count_eq_zero {p : MessageRow → Bool} {f : MessageRow → MessageRow}
    (h : (s.updateWhere p f).2 = 0) : (s.updateWhere p f).1 = s := by
  have hnone : ∀ r ∈ s.messages, ¬ p r = true := List.countP_eq_zero.1 h
  have hsame : (s.messages.map fun r => if p r then f r else r) = s.messages := by
    rw [List.map_congr_left fun r hr => if_neg (hnone r hr), List.map_id']
  -- what is left of a store is not touched by an update
  simp only [updateWhere, hsame]

theorem altersOnly_markRead : AltersOnly id s (s.markRead id time).1 :=
  altersOnly_updateWhere (fun r h => by simpa using (Bool.and_eq_true_iff.1 h).1) fun _ => rfl

theorem altersOnly_markArchived : AltersOnly id s (s.markArchived id time).1 :=
  altersOnly_updateWhere (fun r h => by simpa using (Bool.and_eq_true_iff.1 h).1) fun _ => rfl

theorem markArchived_of_not {s' : Store} (h : s.markArchived id time = (s', false)) : s' = s := by
  obtain ⟨rfl, hcount⟩ := Prod.mk.inj h
  exact updateWhere_of_count_eq_zero (Nat.eq_zero_of_not_pos (of_decide_eq_false hcount))

theorem AltersOnly.ids_eq {s' : Store} (h : AltersOnly id s s') : s'.ids = s.ids := by
  have := h.rows
  rw [ids, ids]
  -- the stores are forgotten, so that the induction is on the rows alone
  generalize s.messages = rows at this
  generalize s'.messages = rows' at this
  induction this with
  | nil => rfl
  | cons hr _ ih => rw [List.map_cons, List.map_cons, hr.1, ih]

theorem mem_ids_of_require {m : Message} (h : s.require id = .ok m) : id ∈ s.ids := by
  unfold require get? at h
  cases hfind : s.messages.find? (·.id == id) with
  | none => simp [hfind] at h
  | some r =>
    refine List.mem_map.2 ⟨r, List.mem_of_find?_eq_some hfind, ?_⟩
    simpa using List.find?_some hfind

theorem Sound.exists_require (hs : s.Sound) (h : id ∈ s.ids) : ∃ m, s.require id = .ok m := by
  obtain ⟨r₀, hr₀, hid⟩ := List.mem_map.1 h
  cases hfind : s.messages.find? (·.id == id) with
  | none => exact absurd (List.find?_eq_none.1 hfind r₀ hr₀) (by simp [hid])
  | some r =>
    obtain ⟨m, rfl, -⟩ := hs.shaped r (List.mem_of_find?_eq_some hfind)
    exact ⟨m, by rw [require, get?_of_find? hfind]⟩

/-! ### The two operations -/

theorem read_snd (s : Store) (id time : String) :
    (s.read id time).2 = s ∨ (s.read id time).2 = (s.markRead id time).1 := by
  unfold read
  split
  · exact .inl rfl
  · split
    · exact .inr rfl
    · exact .inl rfl

theorem archive_snd (s : Store) (id time : String) :
    (s.archive id time).2 = s ∨ (s.archive id time).2 = (s.markArchived id time).1 := by
  unfold archive
  split
  · exact .inl rfl
  · split
    · exact .inl rfl
    · refine .inr ?_
      rcases s.markArchived id time with ⟨s', _ | _⟩ <;> rfl

theorem altersOnly_read (s : Store) (id time : String) : AltersOnly id s (s.read id time).2 := by
  rcases read_snd s id time with h | h <;> rw [h]
  · exact .refl id s
  · exact altersOnly_markRead

theorem altersOnly_archive (s : Store) (id time : String) :
    AltersOnly id s (s.archive id time).2 := by
  rcases archive_snd s id time with h | h <;> rw [h]
  · exact .refl id s
  · exact altersOnly_markArchived

theorem read_of_error (hs : s.Sound) {e : Error} (h : (s.read id time).1 = .error e) :
    (s.read id time).2 = s := by
  unfold read at h ⊢
  cases hfirst : s.require id with
  | error _ => rfl
  | ok m =>
    rw [hfirst] at h
    by_cases hunread : m.status = .unread
    · -- the second look succeeds, because the id and the shape of its row are kept
      have hsound := (turns_markRead s id time).sound hs
      have hid : id ∈ (s.markRead id time).1.ids := by
        rw [altersOnly_markRead.ids_eq]
        exact mem_ids_of_require hfirst
      obtain ⟨m', hsecond⟩ := hsound.exists_require hid
      simp [hunread, hsecond] at h
    · simp [hunread]

theorem archive_of_error (hs : s.Sound) {e : Error} (h : (s.archive id time).1 = .error e) :
    (s.archive id time).2 = s := by
  unfold archive at h ⊢
  cases hfirst : s.require id with
  | error _ => rfl
  | ok m =>
    rw [hfirst] at h
    by_cases harch : m.status = .archived
    · simp [harch]
    · -- as for reading; a row that was not changed leaves the store as it was
      have hsound := (turns_markArchived s id time).sound hs
      have hid : id ∈ (s.markArchived id time).1.ids := by
        rw [altersOnly_markArchived.ids_eq]
        exact mem_ids_of_require hfirst
      obtain ⟨m', hsecond⟩ := hsound.exists_require hid
      rcases hmark : s.markArchived id time with ⟨s', _ | _⟩
      · simp only [harch, if_false]
        exact markArchived_of_not hmark
      · rw [hmark] at hsecond
        simp [harch, hmark, hsecond] at h

end Store

end Mailroom
