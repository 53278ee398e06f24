/-
A receive pass in two halves.

What the transports hand over depends neither on the store nor on the agent, and what the
store takes in depends on the transports only through what they hand over. So a pass is the
same as pulling everything out of the transports and taking it in afterwards.

* `Transport.pull`, `pullAll` — the half of the transports;
* `pullAll_induction` — what every visit keeps is kept by a pass;
* `mem_pullAll_of_fetch` — nothing that a transport hands over is passed by;
* `arrivals` — the messages of what was handed over, for one agent;
* `visit_eq`, `pollAll_eq` — a visit and a pass, put together from the halves;
* `receive_eq` — receiving, whatever the selector.
-/
import Mailroom.Mailbox.Arrival
import Mailroom.Proofs.Store.Growth

namespace Mailroom

variable {σ : Type}

/-- What a visit gets out of a transport, and the surroundings after it. -/
def Transport.pull (t : Transport σ) (w : σ) : List Envelope × σ :=
  if t.canReceive w then
    match t.fetch w with
    | (.error _, w) => ([], w)
    | (.ok fetched, w) => (fetched.envelopes, (t.commit fetched.checkpoint w).2)
  else ([], w)

/-- What a pass gets out of several transports, each envelope with the time of its visit. -/
def pullAll (times : Nat → String) : List (Transport σ) → σ → List (Envelope × String) × σ
  | [], w => ([], w)
  | t :: ts, w =>
    let (envelopes, w) := t.pull w
    let (more, w) := pullAll (fun i => times (i + 1)) ts w
    (envelopes.map (·, times 0) ++ more, w)

theorem pullAll_append (times : Nat → String) (ts us : List (Transport σ)) (w : σ) :
    pullAll times (ts ++ us) w =
      ((pullAll times ts w).1 ++
        (pullAll (fun i => times (i + ts.length)) us (pullAll times ts w).2).1,
      (pullAll (fun i => times (i + ts.length)) us (pullAll times ts w).2).2) := by
  induction ts generalizing times w with
  | nil => rfl
  | cons t ts ih =>
    simp only [List.cons_append, pullAll, ih, List.length_cons, List.append_assoc, Nat.add_assoc]

theorem exists_fetch_of_mem_pull {t : Transport σ} {w : σ} {e : Envelope} (he : e ∈ (t.pull w).1) :
    ∃ fetched w', t.fetch w = (.ok fetched, w') ∧ e ∈ fetched.envelopes := by
  rw [Transport.pull] at he
  split at he
  · rcases hfetch : t.fetch w with ⟨_ | fetched, w'⟩
    · rw [hfetch] at he
      exact absurd he List.not_mem_nil
    · rw [hfetch] at he
      exact ⟨fetched, w', rfl, he⟩
  · exact absurd he List.not_mem_nil

/-- What holds of the surroundings and is kept by every visit is kept by a pass; what holds of
every envelope that a visit gets then holds of all that the pass gets. -/
theorem pullAll_induction (inv : σ → Prop) {p : Envelope → Prop} {ts : List (Transport σ)}
    (hpull : ∀ t ∈ ts, ∀ w, inv w → inv (t.pull w).2 ∧ ∀ e ∈ (t.pull w).1, p e)
    (times : Nat → String) {w : σ} (hw : inv w) :
    inv (pullAll times ts w).2 ∧ ∀ e time, (e, time) ∈ (pullAll times ts w).1 → p e := by
  induction ts generalizing times w with
  | nil => exact ⟨hw, fun e time he => absurd he List.not_mem_nil⟩
  | cons t ts ih =>
    obtain ⟨hafter, hpulled⟩ := hpull t List.mem_cons_self w hw
    obtain ⟨hend, hrest⟩ :=
      ih (fun u hu => hpull u (List.mem_cons_of_mem _ hu)) (fun i => times (i + 1)) hafter
    refine ⟨hend, fun e time he => ?_⟩
    rcases List.mem_append.1 he with he | he
    · obtain ⟨e', he', heq⟩ := List.mem_map.1 he
      obtain ⟨rfl, -⟩ := Prod.mk.inj heq
      exact hpulled _ he'
    · exact hrest e time he

/-- A pass gets everything that a transport hands over when the pass comes to it. -/
theorem mem_pullAll_of_fetch {times : Nat → String} {front : List (Transport σ)}
    (back : List (Transport σ)) {t : Transport σ} {w w' : σ} {fetched : Fetched}
    (hcan : t.canReceive (pullAll times front w).2 = true)
    (hfetch : t.fetch (pullAll times front w).2 = (.ok fetched, w')) {e : Envelope}
    (he : e ∈ fetched.envelopes) :
    ∃ time, (e, time) ∈ (pullAll times (front ++ t :: back) w).1 := by
  have hpull : e ∈ (t.pull (pullAll times front w).2).1 := by
    rw [Transport.pull, if_pos hcan, hfetch]
    exact he
  refine ⟨times (0 + front.length), ?_⟩
  rw [pullAll_append]
  refine List.mem_append_right _ (List.mem_append_left _ ?_)
  exact List.mem_map.2 ⟨e, hpull, rfl⟩

/-- The messages for an agent among envelopes that came at some times. -/
def arrivals (agent : String) (pulled : List (Envelope × String)) : List Message :=
  (pulled.filter fun p => p.1.isFor agent).map fun p => p.1.arrived p.2

theorem arrivals_append (agent : String) (pulled more : List (Envelope × String)) :
    arrivals agent (pulled ++ more) = arrivals agent pulled ++ arrivals agent more := by
  simp [arrivals]

theorem mem_arrivals {agent : String} {pulled : List (Envelope × String)} {m : Message} :
    m ∈ arrivals agent pulled ↔
      ∃ e time, (e, time) ∈ pulled ∧ e.isFor agent = true ∧ m = e.arrived time := by
  simp only [arrivals, List.mem_map, List.mem_filter, Prod.exists, and_assoc, eq_comm (b := m)]

theorem ingestAll_eq (agent time : String) (es : List Envelope) (s : Store) :
    (ingestAll agent time es s).1 = s.takeIn (arrivals agent (es.map (·, time))) := by
  induction es generalizing s with
  | nil => rfl
  | cons e es ih =>
    rw [ingestAll]
    split
    · rename_i hfor
      simp only [List.map_cons, arrivals, List.filter_cons, hfor, if_true, Store.takeIn_cons]
      exact ih _
    · rename_i hfor
      simp only [List.map_cons, arrivals, List.filter_cons, hfor]
      exact ih _

theorem visit_eq (agent : String) (t : Transport σ) (time : String) (s : Store) (w : σ) :
    (visit agent t time s w).2 =
      (s.takeIn (arrivals agent ((t.pull w).1.map (·, time))), (t.pull w).2) := by
  unfold visit Transport.pull
  split
  · unfold poll
    rcases t.fetch w with ⟨_ | fetched, w₁⟩
    · rfl
    · -- what was stored stays stored when the commit fails
      have hstore := ingestAll_eq agent time fetched.envelopes s
      dsimp only
      rcases t.commit fetched.checkpoint w₁ with ⟨_ | _, w₂⟩ <;> simp only [hstore]
  · rfl

theorem pollAll_eq (agent : String) (times : Nat → String) (ts : List (Transport σ)) (s : Store)
    (w : σ) : (pollAll agent times ts s w).2 =
      (s.takeIn (arrivals agent (pullAll times ts w).1), (pullAll times ts w).2) := by
  -- on the transports; store, surroundings and times move on with each visit
  induction ts generalizing times s w with
  | nil => rfl
  | cons t ts ih =>
    have hvisit := visit_eq agent t (times 0) s w
    rcases hv : visit agent t (times 0) s w with ⟨result, s₁, w₁⟩
    rw [hv] at hvisit
    obtain ⟨rfl, rfl⟩ := Prod.mk.inj hvisit
    have ih := ih (fun i => times (i + 1)) (s.takeIn (arrivals agent ((t.pull w).1.map (·, times 0))))
      (t.pull w).2
    simp only [pollAll, hv, pullAll, arrivals_append, Store.takeIn_append]
    exact Prod.ext (congrArg Prod.fst ih) (congrArg Prod.snd ih)

namespace Mailbox

/-- The transports that a pass visits: none if the selector is refused. -/
def visited (b : Mailbox σ) (selector : Option String) : List (Transport σ) :=
  match receiveSelector selector with
  | .error _ => []
  | .ok x => b.registry.resolve x

theorem receive_eq (b : Mailbox σ) (selector : Option String) (times : Nat → String) (s : Store)
    (w : σ) : (b.receive selector times s w).2 =
      (s.takeIn (arrivals b.identity.agentId (pullAll times (b.visited selector) w).1),
        (pullAll times (b.visited selector) w).2) := by
  unfold receive visited
  cases receiveSelector selector with
  | error e => rfl
  | ok x => exact pollAll_eq ..

end Mailbox

end Mailroom
