/-
How a store grows.

Messages come into a store in two ways: several at once, where an id that is taken
refuses all of them, and one after another, where a message whose id is taken is passed
over. In both cases the rows that are there stay as they are, and the new rows stand
after them under new ids.

* `Store.get?_of_find?` — what is found under an id;
* `filter_eq_singleton` — what a condition picks out of distinct things if it holds of one;
* `filter_id_eq_singleton` — so the id of a row picks out the row, where ids are distinct;
* `Adds` — one store has the rows of another one and then those of some messages;
* `Adds.filter_id` — the row of an added message is the only one of its id;
* `Store.followedBy`, `Adds.followedBy` — the store in which several messages were added at once;
* `Store.takeIn` — one after another;
* `adds_takeIn` — what taking in adds is a part of what is taken in;
* `mem_ids_takeIn` — afterwards every id is there;
* `exists_adds_takeIn` — of several messages of a new id one is taken in;
* `takeIn_of_held`, `takeIn_of_fresh` — what is there already changes nothing, and several
  messages of one new id add the first of them;
* `takeIn_of_distinct` — messages with different new ids are all added, in their order.
-/
import Mailroom.Store.Messages
import Mathlib.Data.List.Nodup

namespace Mailroom

namespace Store

/-- The ids of the stored messages. -/
def ids (s : Store) : List String := s.messages.map (·.id)

theorem holds_iff {s : Store} {id : String} : s.holds id = true ↔ id ∈ s.ids := by
  simp [holds, ids]

theorem holds_eq_false_iff {s : Store} {id : String} : s.holds id = false ↔ id ∉ s.ids := by
  rw [← holds_iff, Bool.not_eq_true]

/-- The store with the rows of some messages behind its own. -/
def followedBy (s : Store) (ms : List Message) : Store :=
  { s with messages := s.messages ++ ms.map Message.row }

/-- A message is found if the first row of the id is its row. -/
theorem get?_of_find? {s : Store} {id : String} {m : Message}
    (h : s.messages.find? (·.id == id) = some m.row) : s.get? id = .ok (some m) := by
  rw [get?, h]
  show m.row.toMessage.map some = _
  rw [toMessage_row]
  rfl

end Store

@[simp] theorem id_row (m : Message) : m.row.id = m.id := rfl

/-- A condition that holds of one element only picks this element out. -/
theorem filter_eq_singleton {α : Type} [BEq α] [LawfulBEq α] {as : List α} {p : α → Bool} {a : α}
    (hdistinct : as.Nodup) (ha : a ∈ as) (hp : ∀ b ∈ as, p b = (b == a)) : as.filter p = [a] := by
  rw [List.filter_congr hp, List.filter_beq, List.count_eq_one_of_mem hdistinct ha]
  rfl

/-- Where ids are distinct, a row is the only one of its id. -/
theorem filter_id_eq_singleton {rows : List MessageRow} {r : MessageRow}
    (hids : (rows.map MessageRow.id).Nodup) (hr : r ∈ rows) :
    rows.filter (·.id == r.id) = [r] := by
  refine filter_eq_singleton (List.Nodup.of_map _ hids) hr fun x hx => ?_
  rw [Bool.eq_iff_iff, beq_iff_eq, beq_iff_eq]
  exact ⟨fun hid => List.inj_on_of_nodup_map hids hx hr hid, congrArg MessageRow.id⟩

/-- One store has the rows of another one and then those of some messages with new ids. -/
structure Adds (s : Store) (ms : List Message) (s' : Store) : Prop where
  messages : s'.messages = s.messages ++ ms.map Message.row
  distinct : (ms.map (·.id)).Nodup
  fresh : ∀ m ∈ ms, m.id ∉ s.ids

namespace Adds

variable {s s' s'' : Store} {ms ns : List Message}

theorem of_messages_eq (h : s'.messages = s.messages) : Adds s [] s' :=
  ⟨by simp [h], List.nodup_nil, by simp⟩

theorem followedBy (hdistinct : (ms.map (·.id)).Nodup) (hfresh : ∀ m ∈ ms, m.id ∉ s.ids) :
    Adds s ms (s.followedBy ms) := ⟨rfl, hdistinct, hfresh⟩

theorem ids_eq (h : Adds s ms s') : s'.ids = s.ids ++ ms.map (·.id) := by
  simp [Store.ids, h.messages]

theorem trans (h : Adds s ms s') (h' : Adds s' ns s'') : Adds s (ms ++ ns) s'' where
  messages := by simp [h'.messages, h.messages]
  distinct := by
    rw [List.map_append, List.nodup_append]
    refine ⟨h.distinct, h'.distinct, ?_⟩
    intro a ha b hb hab
    obtain ⟨n, hn, rfl⟩ := List.mem_map.1 hb
    refine h'.fresh n hn ?_
    rw [h.ids_eq]
    exact List.mem_append_right _ (hab ▸ ha)
  fresh := by
    intro m hm
    rcases List.mem_append.1 hm with hm | hm
    · exact h.fresh m hm
    · intro hid
      refine h'.fresh m hm ?_
      rw [h.ids_eq]
      exact List.mem_append_left _ hid

theorem nodup_ids (h : Adds s ms s') (hs : s.ids.Nodup) : s'.ids.Nodup := by
  rw [h.ids_eq, List.nodup_append]
  refine ⟨hs, h.distinct, ?_⟩
  intro a ha b hb hab
  obtain ⟨m, hm, rfl⟩ := List.mem_map.1 hb
  exact h.fresh m hm (hab ▸ ha)

theorem subset_ids (h : Adds s ms s') : s.ids ⊆ s'.ids := by
  rw [h.ids_eq]
  exact List.subset_append_left _ _

/-- The row of an added message is the only one of its id. -/
theorem filter_id (h : Adds s ms s') {m : Message} (hm : m ∈ ms) :
    s'.messages.filter (·.id == m.id) = [m.row] := by
  have hold : s.messages.filter (·.id == m.id) = [] := by
    rw [List.filter_eq_nil_iff]
    intro r hr hid
    exact h.fresh m hm (List.mem_map.2 ⟨r, hr, beq_iff_eq.1 hid⟩)
  have hids : ((ms.map Message.row).map MessageRow.id).Nodup := by
    rw [List.map_map]
    exact h.distinct
  rw [h.messages, List.filter_append, hold, List.nil_append]
  exact filter_id_eq_singleton hids (List.mem_map_of_mem hm)

end Adds

/-! ### One after another -/

theorem adds_ingest (s : Store) (m : Message) :
    Adds s (if s.holds m.id then [] else [m]) (s.ingest m).1 := by
  unfold Store.ingest
  split
  · exact .of_messages_eq rfl
  · rename_i h
    refine ⟨rfl, by simp, ?_⟩
    intro n hn
    obtain rfl := List.mem_singleton.1 hn
    exact Store.holds_eq_false_iff.1 (by simpa using h)

theorem mem_ids_ingest {s : Store} {m : Message} {id : String} :
    id ∈ (s.ingest m).1.ids ↔ id ∈ s.ids ∨ id = m.id := by
  rw [(adds_ingest s m).ids_eq]
  by_cases h : s.holds m.id
  · have := Store.holds_iff.1 h
    simp only [h, if_true, List.map_nil, List.append_nil]
    constructor
    · exact .inl
    · rintro (hin | rfl)
      · exact hin
      · exact this
  · simp [h]

namespace Store

/-- The store after some messages have come in, each unless its id was taken. -/
def takeIn (s : Store) (ms : List Message) : Store := ms.foldl (fun s m => (s.ingest m).1) s

variable {s : Store} {m : Message} {ms ns : List Message}

@[simp] theorem takeIn_nil : s.takeIn [] = s := rfl

@[simp] theorem takeIn_cons : s.takeIn (m :: ms) = (s.ingest m).1.takeIn ms := rfl

theorem takeIn_append : s.takeIn (ms ++ ns) = (s.takeIn ms).takeIn ns := List.foldl_append ..

theorem adds_takeIn (s : Store) (ms : List Message) :
    ∃ ns, Adds s ns (s.takeIn ms) ∧ ns.Sublist ms := by
  induction ms generalizing s with
  | nil => exact ⟨[], .of_messages_eq rfl, .slnil⟩
  | cons m ms ih =>
    obtain ⟨ns, hadds, hsub⟩ := ih (s.ingest m).1
    refine ⟨_, (adds_ingest s m).trans hadds, ?_⟩
    split
    · exact hsub.cons m
    · exact hsub.cons_cons m

theorem mem_ids_takeIn {id : String} :
    id ∈ (s.takeIn ms).ids ↔ id ∈ s.ids ∨ ∃ m ∈ ms, m.id = id := by
  induction ms generalizing s with
  | nil => simp
  | cons m ms ih =>
    rw [takeIn_cons, ih, mem_ids_ingest]
    simp only [List.mem_cons, exists_eq_or_imp, or_assoc, eq_comm (a := id)]

/-- If several messages that come in have a new id, one of them is taken in. -/
theorem exists_adds_takeIn (hnew : m.id ∉ s.ids) (hm : m ∈ ms) :
    ∃ ns, Adds s ns (s.takeIn ms) ∧ ns.Sublist ms ∧ ∃ n ∈ ns, n.id = m.id := by
  obtain ⟨ns, hadds, hsub⟩ := adds_takeIn s ms
  have hid : m.id ∈ (s.takeIn ms).ids := mem_ids_takeIn.2 (.inr ⟨m, hm, rfl⟩)
  rw [hadds.ids_eq, List.mem_append] at hid
  exact ⟨ns, hadds, hsub, List.mem_map.1 (hid.resolve_left hnew)⟩

theorem ingest_of_held (h : m.id ∈ s.ids) : (s.ingest m).1 = s := by
  rw [ingest, if_pos (holds_iff.2 h)]

theorem takeIn_of_held (h : ∀ m ∈ ms, m.id ∈ s.ids) : s.takeIn ms = s := by
  induction ms with
  | nil => rfl
  | cons m ms ih =>
    rw [takeIn_cons, ingest_of_held (h m List.mem_cons_self)]
    exact ih fun n hn => h n (List.mem_cons_of_mem _ hn)

theorem ingest_of_fresh (h : m.id ∉ s.ids) :
    (s.ingest m).1 = { s with messages := s.messages ++ [m.row] } := by
  rw [ingest, if_neg (by simpa using holds_eq_false_iff.2 h)]

theorem takeIn_of_fresh (hm : m.id ∉ s.ids) (hms : ∀ n ∈ ms, n.id = m.id) :
    s.takeIn (m :: ms) = { s with messages := s.messages ++ [m.row] } := by
  rw [takeIn_cons, takeIn_of_held, ingest_of_fresh hm]
  intro n hn
  rw [hms n hn]
  exact mem_ids_ingest.2 (.inr rfl)

theorem takeIn_of_distinct (hdistinct : (ms.map (·.id)).Nodup) (hfresh : ∀ m ∈ ms, m.id ∉ s.ids) :
    s.takeIn ms = { s with messages := s.messages ++ ms.map Message.row } := by
  induction ms generalizing s with
  | nil => rw [takeIn_nil, List.map_nil, List.append_nil]
  | cons m ms ih =>
    obtain ⟨hm, hdistinct⟩ := List.nodup_cons.1 hdistinct
    rw [takeIn_cons, ih hdistinct, ingest_of_fresh (hfresh m List.mem_cons_self), List.map_cons,
      List.append_assoc, List.singleton_append]
    intro n hn hid
    rcases mem_ids_ingest.1 hid with hid | hid
    · exact hfresh n (List.mem_cons_of_mem _ hn) hid
    · exact hm (List.mem_map.2 ⟨n, hn, hid⟩)

end Store

end Mailroom
