/-
The first envelope of each id.

When lines come in for an agent, the first envelope of a new id is stored and later ones of the
same id are passed over. Taking in envelopes one after another, in whatever portions and at
whatever times, thus adds the first of each id that was not held before.

* `firsts` — of some envelopes, the first of each id that is not held;
* `mem_firsts`, `firsts_append_singleton` — which these are, and what one more envelope adds;
* `Store.Gathers` — a store has gained the first envelopes; kept by `Store.takeIn`;
* `Store.CameIn` — what this means for the rows.
-/
import Mailroom.Proofs.Mailbox.Arrivals

namespace Mailroom

/-! ### The first envelope of each id -/

/-- The envelopes for an agent among some lines. -/
def meantFor (agent : String) (lines : List String) : List Envelope :=
  lines.filterMap fun line => (Envelope.decode? line).filter (·.isFor agent)

theorem arrivals_decoded (agent time : String) (lines : List String) :
    arrivals agent ((lines.filterMap Envelope.decode?).map (·, time)) =
      (meantFor agent lines).map (·.arrived time) := by
  rw [arrivals, meantFor, ← List.filter_filterMap, List.filter_map, List.map_map]
  rfl

theorem meantFor_append (agent : String) (lines more : List String) :
    meantFor agent (lines ++ more) = meantFor agent lines ++ meantFor agent more :=
  List.filterMap_append ..

/-- Of some envelopes, the first of each id that is not held. -/
def firsts (held : List String) : List Envelope → List Envelope
  | [] => []
  | e :: es => if e.id ∈ held then firsts held es else e :: firsts (e.id :: held) es

theorem mem_firsts {held : List String} {es : List Envelope} {e : Envelope} :
    e ∈ firsts held es ↔ e.id ∉ held ∧
      ∃ before after, es = before ++ e :: after ∧ ∀ x ∈ before, x.id ≠ e.id := by
  induction es generalizing held with
  | nil => simp [firsts]
  | cons a es ih =>
    rw [firsts]
    split
    · rename_i hheld
      rw [ih]
      refine and_congr_right fun hnew => ?_
      have hne : a.id ≠ e.id := fun heq => hnew (heq ▸ hheld)
      constructor
      · rintro ⟨before, after, rfl, hbefore⟩
        exact ⟨a :: before, after, rfl, List.forall_mem_cons.2 ⟨hne, hbefore⟩⟩
      · rintro ⟨before, after, heq, hbefore⟩
        cases before with
        | nil => exact absurd (congrArg Envelope.id (List.cons.inj heq).1) hne
        | cons b before =>
          exact ⟨before, after, (List.cons.inj heq).2, (List.forall_mem_cons.1 hbefore).2⟩
    · rename_i hfresh
      rw [List.mem_cons, ih, List.mem_cons, not_or]
      constructor
      · rintro (rfl | ⟨⟨hne, hnew⟩, before, after, rfl, hbefore⟩)
        · exact ⟨hfresh, [], es, rfl, List.forall_mem_nil _⟩
        · exact ⟨hnew, a :: before, after, rfl, List.forall_mem_cons.2 ⟨Ne.symm hne, hbefore⟩⟩
      · rintro ⟨hnew, before, after, heq, hbefore⟩
        cases before with
        | nil => exact .inl (List.cons.inj heq).1.symm
        | cons b before =>
          obtain ⟨rfl, rfl⟩ := List.cons.inj heq
          obtain ⟨hne, hbefore⟩ := List.forall_mem_cons.1 hbefore
          exact .inr ⟨⟨Ne.symm hne, hnew⟩, before, after, rfl, hbefore⟩

theorem nodup_firsts (held : List String) (es : List Envelope) :
    ((firsts held es).map Envelope.id).Nodup := by
  induction es generalizing held with
  | nil => exact List.nodup_nil
  | cons a es ih =>
    rw [firsts]
    split
    · exact ih held
    · rw [List.map_cons, List.nodup_cons]
      refine ⟨?_, ih _⟩
      intro hin
      obtain ⟨e, he, hid⟩ := List.mem_map.1 hin
      exact (mem_firsts.1 he).1 (hid ▸ List.mem_cons_self)

theorem mem_ids_firsts {held : List String} {es : List Envelope} {id : String} :
    id ∈ held ∨ id ∈ (firsts held es).map Envelope.id ↔ id ∈ held ∨ id ∈ es.map Envelope.id := by
  induction es generalizing held with
  | nil => rfl
  | cons a es ih =>
    rw [firsts, List.map_cons, List.mem_cons]
    split
    · rename_i hheld
      rw [ih]
      constructor
      · exact Or.imp_right .inr
      · rintro (h | rfl | h)
        · exact .inl h
        · exact .inl hheld
        · exact .inr h
    · have hmore : id ∈ a.id :: held ∨ id ∈ (firsts (a.id :: held) es).map Envelope.id ↔
          id ∈ a.id :: held ∨ id ∈ es.map Envelope.id := ih
      rw [List.mem_cons, or_assoc, or_assoc] at hmore
      rw [List.map_cons, List.mem_cons]
      tauto

theorem firsts_append_singleton (held : List String) (es : List Envelope) (e : Envelope) :
    firsts held (es ++ [e]) =
      firsts held es ++ if e.id ∈ held ∨ e.id ∈ es.map Envelope.id then [] else [e] := by
  induction es generalizing held with
  | nil => simp [firsts]
  | cons a es ih =>
    rw [List.cons_append, firsts, firsts, ih, ih, List.map_cons]
    by_cases hheld : a.id ∈ held
    · have hsame : (e.id ∈ held ∨ e.id ∈ a.id :: es.map Envelope.id) ↔
          (e.id ∈ held ∨ e.id ∈ es.map Envelope.id) := by
        rw [List.mem_cons]
        constructor
        · rintro (h | h | h)
          · exact .inl h
          · exact .inl (h ▸ hheld)
          · exact .inr h
        · exact Or.imp_right .inr
      rw [if_pos hheld, if_pos hheld, if_congr hsame rfl rfl]
    · have hsame : (e.id ∈ a.id :: held ∨ e.id ∈ es.map Envelope.id) ↔
          (e.id ∈ held ∨ e.id ∈ a.id :: es.map Envelope.id) := by
        rw [List.mem_cons, List.mem_cons]
        tauto
      rw [if_neg hheld, if_neg hheld, if_congr hsame rfl rfl, List.cons_append]

/-- An envelope stands in some lines and is for an agent, and none before it of the same id is. -/
def FirstOf (agent : String) (lines : List String) (e : Envelope) : Prop :=
  ∃ before line after, lines = before ++ line :: after ∧ Envelope.decode? line = some e ∧
    e.isFor agent = true ∧ ∀ l ∈ before, ∀ e', Envelope.decode? l = some e' →
      e'.isFor agent = true → e'.id ≠ e.id

theorem mem_firsts_meantFor {held : List String} {agent : String} {lines : List String}
    {e : Envelope} :
    e ∈ firsts held (meantFor agent lines) ↔ e.id ∉ held ∧ FirstOf agent lines e := by
  rw [mem_firsts]
  refine and_congr_right fun _ => ?_
  constructor
  · rintro ⟨before, after, hsplit, hfirst⟩
    obtain ⟨ls, rest, rfl, rfl, hrest⟩ := List.filterMap_eq_append_iff.1 hsplit
    obtain ⟨gap, line, ls', rfl, hgap, hline, -⟩ := List.filterMap_eq_cons_iff.1 hrest
    obtain ⟨hdecode, hfor⟩ := Option.filter_eq_some_iff.1 hline
    refine ⟨ls ++ gap, line, ls', by rw [List.append_assoc], hdecode, hfor, ?_⟩
    intro l hl e' he' hfor'
    have hmeant : (Envelope.decode? l).filter (·.isFor agent) = some e' :=
      Option.filter_eq_some_iff.2 ⟨he', hfor'⟩
    rcases List.mem_append.1 hl with hl | hl
    · exact hfirst e' (List.mem_filterMap.2 ⟨l, hl, hmeant⟩)
    · exact absurd (hgap l hl) (by simp [hmeant])
  · rintro ⟨before, line, after, rfl, hdecode, hfor, hfirst⟩
    have hmeant : (Envelope.decode? line).filter (·.isFor agent) = some e :=
      Option.filter_eq_some_iff.2 ⟨hdecode, hfor⟩
    refine ⟨meantFor agent before, meantFor agent after, ?_, ?_⟩
    · rw [meantFor_append]
      exact congrArg _ (List.filterMap_cons_some hmeant)
    · intro x hx
      obtain ⟨l, hl, hx⟩ := List.mem_filterMap.1 hx
      obtain ⟨hx, hforx⟩ := Option.filter_eq_some_iff.1 hx
      exact hfirst l hl x hx hforx

/-! ### What a store gains -/

/-- A store has gained, of some envelopes, the first of each id that it did not hold. -/
structure Store.Gathers (s : Store) (es : List Envelope) (s' : Store) : Prop where
  rows : ∃ came : List (Envelope × String),
    s'.messages = s.messages ++ came.map (fun p => (p.1.arrived p.2).row) ∧
      came.map Prod.fst = firsts s.ids es

namespace Store.Gathers

variable {s s' : Store} {es fs : List Envelope}

theorem nothing (s : Store) : s.Gathers [] s := ⟨[], by simp, rfl⟩

theorem mem_ids (h : s.Gathers es s') {id : String} :
    id ∈ s'.ids ↔ id ∈ s.ids ∨ id ∈ es.map Envelope.id := by
  obtain ⟨came, hrows, hcame⟩ := h.rows
  have hids : s'.ids = s.ids ++ (firsts s.ids es).map Envelope.id := by
    rw [← hcame, ids, ids, hrows, List.map_append, List.map_map, List.map_map]
    rfl
  rw [hids, List.mem_append, mem_ids_firsts]

theorem ingest (h : s.Gathers es s') (e : Envelope) (time : String) :
    s.Gathers (es ++ [e]) (s'.ingest (e.arrived time)).1 := by
  obtain ⟨came, hrows, hcame⟩ := h.rows
  by_cases hheld : e.id ∈ s'.ids
  · rw [ingest_of_held hheld]
    refine ⟨came, hrows, ?_⟩
    rw [firsts_append_singleton, if_pos (h.mem_ids.1 hheld), hcame, List.append_nil]
  · refine ⟨came ++ [(e, time)], ?_, ?_⟩
    · have hadded : (s'.ingest (e.arrived time)).1.messages =
          s'.messages ++ [(e.arrived time).row] := by
        have hnot : ¬ s'.holds (e.arrived time).id = true := fun h => hheld (holds_iff.1 h)
        rw [Store.ingest, if_neg hnot]
      rw [hadded, hrows, List.map_append, List.append_assoc]
      rfl
    · rw [firsts_append_singleton, if_neg (mt h.mem_ids.2 hheld), List.map_append, hcame]
      rfl

theorem takeIn (h : s.Gathers es s') (fs : List Envelope) (time : String) :
    s.Gathers (es ++ fs) (s'.takeIn (fs.map (·.arrived time))) := by
  induction fs generalizing es s' with
  | nil => simpa using h
  | cons f fs ih =>
    have := ih (h.ingest f time)
    rwa [List.append_assoc] at this

end Store.Gathers

/-- A store has kept its rows and gained, for each id that it did not hold, the first envelope of
this id that is for the agent among some lines. -/
def Store.CameIn (s : Store) (agent : String) (lines : List String) (s' : Store) : Prop :=
  ∃ new, s'.messages = s.messages ++ new ∧ (new.map (·.id)).Nodup ∧
    (∀ r ∈ new, ∃ e time, e.id ∉ s.ids ∧ FirstOf agent lines e ∧ r = (e.arrived time).row) ∧
    ∀ e, e.id ∉ s.ids → FirstOf agent lines e → ∃ time, (e.arrived time).row ∈ new

theorem Store.Gathers.cameIn {s s' : Store} {agent : String} {lines : List String}
    (h : s.Gathers (meantFor agent lines) s') : s.CameIn agent lines s' := by
  obtain ⟨came, hrows, hcame⟩ := h.rows
  refine ⟨_, hrows, ?_, ?_, ?_⟩
  · have hids : (came.map fun p => (p.1.arrived p.2).row).map (·.id) =
        (firsts s.ids (meantFor agent lines)).map Envelope.id := by
      rw [← hcame, List.map_map, List.map_map]
      rfl
    rw [hids]
    exact nodup_firsts s.ids _
  · intro r hr
    obtain ⟨⟨e, time⟩, hin, rfl⟩ := List.mem_map.1 hr
    have he : e ∈ firsts s.ids (meantFor agent lines) :=
      hcame ▸ List.mem_map_of_mem (f := Prod.fst) hin
    obtain ⟨hnew, hfirst⟩ := mem_firsts_meantFor.1 he
    exact ⟨e, time, hnew, hfirst, rfl⟩
  · intro e hnew hfirst
    have he := mem_firsts_meantFor.2 ⟨hnew, hfirst⟩
    rw [← hcame] at he
    obtain ⟨⟨e', time⟩, hin, rfl⟩ := List.mem_map.1 he
    exact ⟨time, List.mem_map_of_mem hin⟩

/-- A row without the time at which its message was made or arrived. -/
def MessageRow.untimed (r : MessageRow) : MessageRow := { r with createdAt := "" }

theorem Store.Gathers.untimed {s s' : Store} {es : List Envelope} (h : s.Gathers es s') :
    s'.messages.map MessageRow.untimed = s.messages.map MessageRow.untimed ++
      (firsts s.ids es).map fun e => (e.arrived "").row := by
  obtain ⟨came, hrows, hcame⟩ := h.rows
  rw [hrows, ← hcame, List.map_append, List.map_map, List.map_map]
  rfl

end Mailroom
