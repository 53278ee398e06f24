/-
Several messages in one transaction.

Messages that are stored together are written one after another. Until the last one is written
only the writer sees them, and at the first id that is taken, by an old row or by a message written
before, all of them are dropped. So however far the writing came, the store holds every one of them
afterwards or is what it was.

* `Transaction.Wrote` — what has been written; `Wrote.write` and `wrote_writeAll` keep account of it
  for one message and for all;
* `transact_eq_ok_iff`, `transact_of_clash`, `insert_eq` — what a transaction comes to, without its
  course;
* `get?_of_adds`, `get?_of_not_added` — what is found afterwards;
* `stored_together_or_not_at_all` — when messages go in, and how the store is left.
-/
import Mailroom.Proofs.Store.Growth

namespace Mailroom

namespace Transaction

variable {s : Store} {t t' : Transaction} {m : Message} {ms done : List Message}

/-- A transaction on a store in which some messages have been written, each under a new id. -/
structure Wrote (s : Store) (ms : List Message) (t : Transaction) : Prop where
  committed : t.committed = s
  pending : t.pending = s.followedBy ms
  adds : Adds s ms t.pending

theorem wrote_start (s : Store) : Wrote s [] (start s) where
  committed := rfl
  pending := by simp [start, Store.followedBy]
  adds := .of_messages_eq rfl

theorem write_eq_ok_iff : t.write m = .ok t' ↔
    m.id ∉ t.pending.ids ∧ t' = ⟨t.committed, t.pending.followedBy [m]⟩ := by
  rw [write, ← Store.holds_eq_false_iff]
  cases t.pending.holds m.id with
  | true => exact ⟨nofun, fun h => absurd h.1 nofun⟩
  | false => exact ⟨fun h => ⟨rfl, (Except.ok.inj h).symm⟩, fun h => h.2 ▸ rfl⟩

theorem write_eq_error_iff {e : StorageFault} :
    t.write m = .error e ↔ m.id ∈ t.pending.ids ∧ e = .idTaken := by
  rw [write, ← Store.holds_iff]
  cases t.pending.holds m.id with
  | true => exact ⟨fun h => ⟨rfl, (Except.error.inj h).symm⟩, fun h => h.2 ▸ rfl⟩
  | false => exact ⟨nofun, fun h => absurd h.1 nofun⟩

/-- One more message is written behind the others, and nobody else sees it. -/
theorem Wrote.write (h : Wrote s done t) (hwrite : t.write m = .ok t') :
    Wrote s (done ++ [m]) t' := by
  obtain ⟨hfresh, rfl⟩ := write_eq_ok_iff.1 hwrite
  have hone : Adds t.pending [m] (t.pending.followedBy [m]) :=
    ⟨rfl, List.nodup_singleton _, fun n hn => List.mem_singleton.1 hn ▸ hfresh⟩
  refine ⟨h.committed, ?_, h.adds.trans hone⟩
  show t.pending.followedBy [m] = _
  simp only [h.pending, Store.followedBy, List.map_append, List.append_assoc]

/-- Either all messages are written, or those before the first one whose id is taken. -/
theorem wrote_writeAll (h : Wrote s done t) (ms : List Message) :
    (∃ t', t.writeAll ms = (t', none) ∧ Wrote s (done ++ ms) t') ∨
      ∃ before m after t', ms = before ++ m :: after ∧
        t.writeAll ms = (t', some .idTaken) ∧ Wrote s (done ++ before) t' ∧
        m.id ∈ t'.pending.ids := by
  -- over what is still to be written; `done` grows by what has been
  induction ms generalizing done t with
  | nil => exact .inl ⟨t, rfl, by rwa [List.append_nil]⟩
  | cons m ms ih =>
    cases hwrite : t.write m with
    | error e =>
      obtain ⟨htaken, rfl⟩ := write_eq_error_iff.1 hwrite
      refine .inr ⟨[], m, ms, t, rfl, ?_, by rwa [List.append_nil], htaken⟩
      rw [writeAll, hwrite]
    | ok t' =>
      have hrest : t.writeAll (m :: ms) = t'.writeAll ms := by rw [writeAll, hwrite]
      have hassoc : ∀ ns, done ++ [m] ++ ns = done ++ m :: ns := fun ns => by simp
      rw [hrest]
      rcases ih (h.write hwrite) with ⟨t'', hall, hwrote⟩ |
        ⟨before, n, after, t'', rfl, hsome, hwrote, htaken⟩
      · exact .inl ⟨t'', hall, by rwa [← hassoc]⟩
      · exact .inr ⟨m :: before, n, after, t'', rfl, hsome, by rwa [← hassoc], htaken⟩

end Transaction

/-- The id at which writing stops is that of an old row or of a message written before. -/
theorem Transaction.Wrote.taken {s : Store} {t : Transaction} {m : Message} {ms : List Message}
    (h : t.Wrote s ms) (hid : m.id ∈ t.pending.ids) : m.id ∈ s.ids ∨ m.id ∈ ms.map (·.id) := by
  rw [h.adds.ids_eq] at hid
  exact List.mem_append.1 hid

/-! ### What a transaction comes to -/

section

variable {s s' : Store} {m : Message} {ms : List Message}

/-- The messages that come before one whose id is taken by then keep the list from being stored. -/
theorem clash_of_taken {before after : List Message}
    (h : m.id ∈ s.ids ∨ m.id ∈ before.map (·.id)) :
    ¬ (((before ++ m :: after).map (·.id)).Nodup ∧ ∀ n ∈ before ++ m :: after, n.id ∉ s.ids) := by
  rintro ⟨hdistinct, hfresh⟩
  rcases h with hold | hearlier
  · exact hfresh m (List.mem_append_right _ List.mem_cons_self) hold
  · rw [List.map_append, List.nodup_append] at hdistinct
    exact hdistinct.2.2 _ hearlier _ (List.mem_map_of_mem List.mem_cons_self) rfl

theorem transact_of_fresh (hdistinct : (ms.map (·.id)).Nodup) (hfresh : ∀ m ∈ ms, m.id ∉ s.ids) :
    s.transact ms = (.ok (), s.followedBy ms) := by
  rcases Transaction.wrote_writeAll (Transaction.wrote_start s) ms with ⟨t, hall, hwrote⟩ |
    ⟨before, m, after, t, rfl, -, hwrote, htaken⟩
  · rw [Store.transact, hall, Transaction.finish, hwrote.pending, List.nil_append]
  · exact absurd ⟨hdistinct, hfresh⟩ (clash_of_taken (hwrote.taken htaken))

theorem transact_of_clash (h : ¬ ((ms.map (·.id)).Nodup ∧ ∀ m ∈ ms, m.id ∉ s.ids)) :
    s.transact ms = (.error .idTaken, s) := by
  rcases Transaction.wrote_writeAll (Transaction.wrote_start s) ms with ⟨t, -, hwrote⟩ |
    ⟨before, m, after, t, rfl, hsome, hwrote, -⟩
  · exact absurd ⟨hwrote.adds.distinct, hwrote.adds.fresh⟩ h
  · rw [Store.transact, hsome, Transaction.finish, hwrote.committed]

/-- All messages are stored if their ids differ and none of them is taken. -/
theorem transact_eq_ok_iff : s.transact ms = (.ok (), s') ↔
    ((ms.map (·.id)).Nodup ∧ ∀ m ∈ ms, m.id ∉ s.ids) ∧ s' = s.followedBy ms := by
  by_cases h : (ms.map (·.id)).Nodup ∧ ∀ m ∈ ms, m.id ∉ s.ids
  · rw [transact_of_fresh h.1 h.2, Prod.mk.injEq, eq_self_iff_true, true_and, and_iff_right h,
      eq_comm]
  · rw [transact_of_clash h]
    exact ⟨fun heq => absurd (Prod.mk.inj heq).1 nofun, fun hboth => absurd hboth.1 h⟩

theorem insert_eq_ok_iff : s.insert ms = .ok s' ↔ s.transact ms = (.ok (), s') := by
  rw [Store.insert]
  rcases s.transact ms with ⟨_ | _, t⟩
  · exact ⟨nofun, nofun⟩
  · rw [Except.ok.injEq, Prod.mk.injEq, eq_self_iff_true, true_and]

/-- What is left of a transaction if its course is passed over. -/
theorem insert_eq (s : Store) (ms : List Message) :
    s.insert ms = if (ms.map (·.id)).Nodup ∧ ∀ m ∈ ms, m.id ∉ s.ids
      then .ok (s.followedBy ms) else .error .idTaken := by
  split
  · rename_i h
    exact insert_eq_ok_iff.2 (transact_of_fresh h.1 h.2)
  · rename_i h
    rw [Store.insert, transact_of_clash h]

theorem adds_transact (h : s.transact ms = (.ok (), s')) : Adds s ms s' := by
  obtain ⟨⟨hdistinct, hfresh⟩, rfl⟩ := transact_eq_ok_iff.1 h
  exact .followedBy hdistinct hfresh

/-! ### What is found afterwards -/

/-- A message that was added is found as it was given. -/
theorem get?_of_adds (h : Adds s ms s') (hm : m ∈ ms) : s'.get? m.id = .ok (some m) := by
  have hfind : s'.messages.find? (·.id == m.id) = some m.row := by
    rw [← List.head?_filter, h.filter_id hm]
    rfl
  exact Store.get?_of_find? hfind

/-- Under any other id there is found what was found before. -/
theorem get?_of_not_added {id : String} (h : Adds s ms s') (hid : id ∉ ms.map (·.id)) :
    s'.get? id = s.get? id := by
  have hnew : (ms.map Message.row).find? (·.id == id) = none := by
    rw [List.find?_eq_none]
    intro r hr hrid
    obtain ⟨m, hm, rfl⟩ := List.mem_map.1 hr
    exact hid (List.mem_map.2 ⟨m, hm, beq_iff_eq.1 hrid⟩)
  rw [Store.get?, h.messages, List.find?_append, hnew, Option.or_none, Store.get?]

end

/-- Messages go in together if and only if their ids differ and none of them is taken. Then they
stand behind the old rows, which are as they were, and each is found as it was given. Otherwise
those before the first whose id is taken have been written when the transaction is refused, and the
store is left as it was. -/
theorem stored_together_or_not_at_all (s : Store) (ms : List Message) :
    ((∃ s', s.insert ms = .ok s') ↔ (ms.map (·.id)).Nodup ∧ ∀ m ∈ ms, m.id ∉ s.ids) ∧
    (∀ s', s.insert ms = .ok s' →
      s.transact ms = (.ok (), s') ∧
      s' = { s with messages := s.messages ++ ms.map Message.row } ∧
      (∀ m ∈ ms, s'.get? m.id = .ok (some m)) ∧
      ∀ id, id ∉ ms.map (·.id) → s'.get? id = s.get? id) ∧
    (¬ ((ms.map (·.id)).Nodup ∧ ∀ m ∈ ms, m.id ∉ s.ids) →
      s.insert ms = .error .idTaken ∧ s.transact ms = (.error .idTaken, s) ∧
      ∃ before m after t, ms = before ++ m :: after ∧
        (Transaction.start s).writeAll ms = (t, some .idTaken) ∧
        t.committed = s ∧
        t.pending = { s with messages := s.messages ++ before.map Message.row } ∧
        (m.id ∈ s.ids ∨ m.id ∈ before.map (·.id))) := by
  refine ⟨?_, fun s' h => ?_, fun hclash => ?_⟩
  · simp only [insert_eq_ok_iff, transact_eq_ok_iff, exists_and_left, exists_eq, and_true]
  · have hstored := insert_eq_ok_iff.1 h
    have hadds := adds_transact hstored
    refine ⟨hstored, (transact_eq_ok_iff.1 hstored).2, fun m hm => get?_of_adds hadds hm,
      fun id hid => get?_of_not_added hadds hid⟩
  · refine ⟨by rw [insert_eq, if_neg hclash], transact_of_clash hclash, ?_⟩
    rcases Transaction.wrote_writeAll (Transaction.wrote_start s) ms with ⟨t, -, hwrote⟩ |
      ⟨before, m, after, t, hms, hsome, hwrote, htaken⟩
    · exact absurd ⟨hwrote.adds.distinct, hwrote.adds.fresh⟩ hclash
    · exact ⟨before, m, after, t, hms, hsome, hwrote.committed, hwrote.pending,
        hwrote.taken htaken⟩

end Mailroom
