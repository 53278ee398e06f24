/-
What the transports of a registry are given to send.

To see which lines a transport is given, it is watched: a note is made of every line just
before it is sent. A watched transport does everything else as before, so what holds of the
notes holds of the transports themselves.

* `Transport.noting`, `Registry.noting`, `Mailbox.noting` — the same, with notes;
* `relayAll_noting` — the notes of a relay are `givenAll`, and nothing else has changed;
* `send_noting` — so it is when a mailbox sends;
* `givenAll_sublist` — a relay gives its line to each transport at most once;
* `pairwise_names`, `nodup_givenAll` — a registry holds no name twice, so no name is noted
  twice.
-/
import Mailroom.Mailbox.Posting
import Mathlib.Data.String.Basic

namespace Mailroom

variable {σ : Type}

/-! ### Notes -/

/-- The transport that makes a note of its name and of each line before sending it. -/
def Transport.noting (t : Transport σ) : Transport (σ × List (String × String)) where
  name := t.name
  isNetwork := t.isNetwork
  available w := t.available w.1
  canReceive w := t.canReceive w.1
  describe w := t.describe w.1
  send line w := ((t.send line w.1).1, (t.send line w.1).2, w.2 ++ [(t.name, line)])
  fetch w := ((t.fetch w.1).1, (t.fetch w.1).2, w.2)
  commit c w := ((t.commit c w.1).1, (t.commit c w.1).2, w.2)

/-- The registry in which all transports make notes. -/
def Registry.noting (r : Registry σ) : Registry (σ × List (String × String)) :=
  ⟨r.transports.map .noting⟩

/-- The mailbox in which all transports make notes. -/
def Mailbox.noting (b : Mailbox σ) : Mailbox (σ × List (String × String)) :=
  ⟨b.identity, b.registry.noting, b.selector, b.file⟩

theorem relay_noting (t : Transport σ) (line : String) (w : σ) (notes : List (String × String)) :
    t.noting.relay line (w, notes) = ((t.relay line w).1, (t.relay line w).2,
      notes ++ if t.available w then [(t.name, line)] else []) := by
  have hsend : t.noting.send line (w, notes) =
      ((t.send line w).1, (t.send line w).2, notes ++ [(t.name, line)]) := rfl
  rw [Transport.relay, Transport.relay]
  show (if t.available w then _ else _) = _
  by_cases h : t.available w
  · rw [if_pos h, if_pos h, if_pos h, hsend]
    rcases t.send line w with ⟨_ | _, w'⟩
    · rfl
    · rfl
  · rw [if_neg h, if_neg h, if_neg h, List.append_nil]
    rfl

/-- What several transports are given when a line is relayed through them. -/
def givenAll (line : String) : List (Transport σ) → σ → List (String × String)
  | [], _ => []
  | t :: ts, w =>
    (if t.available w then [(t.name, line)] else []) ++ givenAll line ts (t.relay line w).2

theorem relayAll_noting (line : String) (ts : List (Transport σ)) (w : σ)
    (notes : List (String × String)) :
    relayAll line (ts.map .noting) (w, notes) =
      ((relayAll line ts w).1, (relayAll line ts w).2, notes ++ givenAll line ts w) := by
  induction ts generalizing w notes with
  | nil =>
    rw [givenAll, List.append_nil]
    rfl
  | cons t ts ih =>
    rw [List.map_cons, relayAll, relay_noting]
    dsimp only
    rw [ih, givenAll, List.append_assoc]
    rfl

theorem givenAll_sublist (line : String) (ts : List (Transport σ)) (w : σ) :
    (givenAll line ts w).Sublist (ts.map fun t => (t.name, line)) := by
  induction ts generalizing w with
  | nil => exact .slnil
  | cons t ts ih =>
    rw [givenAll]
    split
    · exact (ih _).cons_cons _
    · exact (ih _).cons _

theorem resolve_noting (r : Registry σ) (x : Selector) :
    r.noting.resolve x = (r.resolve x).map .noting := by
  have hget : ∀ name, r.noting.get? name = (r.get? name).map .noting := by
    intro name
    show (r.transports.map _).find? _ = _
    rw [List.find?_map]
    rfl
  cases x with
  | here => rfl
  | simplex =>
    show (r.noting.get? _).toList = (r.get? _).toList.map _
    rw [hget, Option.toList_map]
  | matrix =>
    show (r.noting.get? _).toList = (r.get? _).toList.map _
    rw [hget, Option.toList_map]
  | all =>
    show (r.transports.map _).filter _ = (r.transports.filter _).map _
    rw [List.filter_map]
    rfl

/-- A mailbox whose transports make notes sends as before, and notes what they are given. -/
theorem send_noting {b : Mailbox σ} {d : Draft} {time : String} {ids : Nat → String}
    {s s' : Store} {l : Letter} {ms : List Message} (h : b.post d time ids s = (.ok (l, ms), s'))
    (w : σ) (notes : List (String × String)) :
    b.noting.send d time ids s (w, notes) =
      ((b.send d time ids s w).1, (b.send d time ids s w).2.1, (b.send d time ids s w).2.2,
        notes ++ givenAll (l.envelope ids).encode (b.registry.resolve l.selector) w) := by
  have hnoting : b.noting.post d time ids s = (.ok (l, ms), s') := h
  have hrelay : b.noting.registry.relay l.selector (l.envelope ids) (w, notes) =
      ((b.registry.relay l.selector (l.envelope ids) w).1,
        (b.registry.relay l.selector (l.envelope ids) w).2,
        notes ++ givenAll (l.envelope ids).encode (b.registry.resolve l.selector) w) := by
    show relayAll _ (b.registry.noting.resolve l.selector) _ = _
    rw [resolve_noting, relayAll_noting]
    rfl
  rw [Mailbox.send, Mailbox.send, h, hnoting]
  dsimp only
  rw [hrelay]

/-! ### Names in a registry -/

theorem mem_insertByName {t u : Transport σ} {us : List (Transport σ)}
    (h : u ∈ insertByName t us) : u = t ∨ u ∈ us := by
  induction us with
  | nil => exact .inl (List.mem_singleton.1 h)
  | cons v vs ih =>
    rw [insertByName] at h
    split at h
    · exact List.mem_cons.1 h
    · split at h
      · rcases List.mem_cons.1 h with h | h
        · exact .inl h
        · exact .inr (List.mem_cons_of_mem _ h)
      · rcases List.mem_cons.1 h with h | h
        · exact .inr (h ▸ List.mem_cons_self)
        · exact (ih h).imp_right (List.mem_cons_of_mem _)

theorem pairwise_insertByName {t : Transport σ} {us : List (Transport σ)}
    (h : us.Pairwise fun u v => u.name < v.name) :
    (insertByName t us).Pairwise fun u v => u.name < v.name := by
  induction us with
  | nil => exact List.pairwise_singleton ..
  | cons u us ih =>
    obtain ⟨hu, hus⟩ := List.pairwise_cons.1 h
    rw [insertByName]
    split
    · -- before the first name, and so before all of them
      rename_i hlt
      refine List.pairwise_cons.2 ⟨?_, h⟩
      intro v hv
      rcases List.mem_cons.1 hv with rfl | hv
      · exact hlt
      · exact lt_trans hlt (hu v hv)
    · split
      · rename_i heq
        refine List.pairwise_cons.2 ⟨?_, hus⟩
        intro v hv
        rw [heq]
        exact hu v hv
      · rename_i hlt hne
        refine List.pairwise_cons.2 ⟨?_, ih hus⟩
        intro v hv
        rcases mem_insertByName hv with rfl | hv
        · exact lt_of_le_of_ne (not_lt.1 hlt) (Ne.symm hne)
        · exact hu v hv

namespace Registry

/-- Whether the names of the transports stand in order, each of them once. -/
def Ordered (r : Registry σ) : Prop := r.transports.Pairwise fun t u => t.name < u.name

theorem ordered_register {r : Registry σ} (h : r.Ordered) (t : Transport σ) :
    (r.register t).Ordered :=
  pairwise_insertByName h

theorem ordered_foldl_register {r : Registry σ} (h : r.Ordered) (ts : List (Transport σ)) :
    (ts.foldl register r).Ordered := by
  induction ts generalizing r with
  | nil => exact h
  | cons t ts ih => exact ih (ordered_register h t)

theorem resolve_sublist (r : Registry σ) (x : Selector) :
    (r.resolve x).Sublist r.transports := by
  have hget : ∀ name, (r.get? name).toList.Sublist r.transports := by
    intro name
    cases h : r.get? name with
    | none => exact List.nil_sublist _
    | some t => exact List.singleton_sublist.2 (List.mem_of_find?_eq_some h)
  cases x with
  | here => exact List.nil_sublist _
  | simplex => exact hget _
  | matrix => exact hget _
  | all => exact List.filter_sublist

theorem pairwise_names {r : Registry σ} (h : r.Ordered) (x : Selector) :
    ((r.resolve x).map (·.name)).Pairwise (· < ·) :=
  List.pairwise_map.2 (List.Pairwise.sublist (r.resolve_sublist x) h)

/-- Each transport of a registry is given a line at most once. -/
theorem nodup_givenAll {r : Registry σ} (h : r.Ordered) (line : String) (x : Selector) (w : σ) :
    ((givenAll line (r.resolve x) w).map Prod.fst).Nodup := by
  have hsub := (givenAll_sublist line (r.resolve x) w).map Prod.fst
  rw [List.map_map] at hsub
  exact hsub.nodup ((pairwise_names h x).imp ne_of_lt)

theorem ordered_empty : (empty : Registry σ).Ordered := .nil

end Registry

end Mailroom
