/-
What a receipt counts.

A receive pass visits its transports one after another, and the receipt counts the messages of
the visits that succeeded. A visit stores what it has fetched before it commits, and if the
commit fails, its messages are stored and not counted. So the receipt never counts too much,
and it counts too little exactly if a visit failed after it had stored something.

* `Visit`, `visits` — the visits of a pass, each with the store before and after it;
* `length_ingestAll` — what is stored is what is counted, until the commit;
* `visit_cases` — what one visit can do;
* `added_eq` — so every row that a visit adds is counted, or the visit failed;
* `ingested_eq_growth_iff` — a receipt and the growth of the store;
* `stored_not_counted` — a commit that fails.
-/
import Mailroom.Proofs.Mailbox.Arrivals
import Mailroom.Proofs.Transport.Stream
import Mathlib.Algebra.GroupWithZero.Nat

namespace Mailroom

variable {σ : Type}

/-- A visit to a transport: what came of it, and the store before and after it. -/
structure Visit (σ : Type) where
  transport : Transport σ
  result : PollResult
  before : Store
  after : Store

namespace Visit

/-- What the receipt says of a visit. -/
def entry (v : Visit σ) : String × PollResult := (v.transport.name, v.result)

/-- By how many rows the store has grown during a visit. -/
def added (v : Visit σ) : Nat := v.after.messages.length - v.before.messages.length

/-- How many of these rows the receipt leaves out: all of them if the visit failed. -/
def uncounted (v : Visit σ) : Nat :=
  match v.result with
  | .failed _ => v.added
  | _ => 0

theorem uncounted_eq_zero_iff (v : Visit σ) :
    v.uncounted = 0 ↔ ∀ reason, v.result = .failed reason → v.added = 0 := by
  unfold uncounted
  constructor
  · intro hzero reason hfailed
    rw [hfailed] at hzero
    exact hzero
  · intro hfailed
    split
    · exact hfailed _ ‹_›
    · rfl

end Visit

/-- The visits of a pass to several transports. -/
def visits (agent : String) (times : Nat → String) :
    List (Transport σ) → Store → σ → List (Visit σ)
  | [], _, _ => []
  | t :: ts, s, w =>
    let (result, s', w') := visit agent t (times 0) s w
    ⟨t, result, s, s'⟩ :: visits agent (fun i => times (i + 1)) ts s' w'

/-! ### One visit -/

theorem length_ingestAll (agent time : String) (es : List Envelope) (s : Store) :
    (ingestAll agent time es s).1.messages.length =
      s.messages.length + (ingestAll agent time es s).2 := by
  induction es generalizing s with
  | nil => rfl
  | cons e es ih =>
    rw [ingestAll]
    by_cases hfor : e.isFor agent
    · rw [if_pos hfor]
      show (ingestAll agent time es (s.ingest (e.arrived time)).1).1.messages.length =
        _ + ((ingestAll agent time es (s.ingest (e.arrived time)).1).2 +
          (s.ingest (e.arrived time)).2.toNat)
      rw [ih, Store.ingest]
      -- an id that is taken adds nothing and counts nothing
      split
      · rfl
      · simp only [List.length_append, List.length_singleton, Bool.toNat_true]
        omega
    · rw [if_neg hfor]
      exact ih s

/-- A visit is skipped, or it counts what it stores, or it fails; and if it fails with something
stored, it was the commit that failed. -/
theorem visit_cases {agent time : String} {t : Transport σ} {s s' : Store} {w w' : σ}
    {x : PollResult} (h : visit agent t time s w = (x, s', w')) :
    (x = .skipped ∧ s' = s) ∨
      (∃ fetched n, x = .polled fetched n ∧ s'.messages.length = s.messages.length + n) ∨
      ∃ reason, x = .failed reason ∧ s.messages.length ≤ s'.messages.length ∧
        (s' = s ∨ ∃ c w₁ e w₂, t.commit c w₁ = (.error e, w₂)) := by
  unfold visit at h
  split at h
  · unfold poll at h
    rcases hfetch : t.fetch w with ⟨e | fetched, w₁⟩
    · rw [hfetch] at h
      obtain ⟨rfl, rfl, -⟩ := h
      exact .inr (.inr ⟨e.message, rfl, Nat.le_refl _, .inl rfl⟩)
    · rw [hfetch] at h
      have hlength := length_ingestAll agent time fetched.envelopes s
      dsimp only at h
      rcases hcommit : t.commit fetched.checkpoint w₁ with ⟨e | _, w₂⟩
      · rw [hcommit] at h
        obtain ⟨rfl, rfl, -⟩ := h
        refine .inr (.inr ⟨e.message, rfl, ?_, .inr ⟨_, _, _, _, hcommit⟩⟩)
        rw [hlength]
        exact Nat.le_add_right _ _
      · rw [hcommit] at h
        obtain ⟨rfl, rfl, -⟩ := h
        exact .inr (.inl ⟨_, _, rfl, hlength⟩)
  · obtain ⟨rfl, rfl, -⟩ := h
    exact .inl ⟨rfl, rfl⟩

/-- Every row that a visit adds is counted, unless the visit failed. -/
theorem added_eq {agent time : String} {t : Transport σ} {s s' : Store} {w w' : σ}
    {x : PollResult} (h : visit agent t time s w = (x, s', w')) :
    s'.messages.length = s.messages.length + (x.ingested + (Visit.mk t x s s').uncounted) := by
  rcases visit_cases h with ⟨rfl, rfl⟩ | ⟨fetched, n, rfl, hlength⟩ | ⟨reason, rfl, hle, -⟩
  · rfl
  · exact hlength
  · show _ = _ + (0 + (s'.messages.length - s.messages.length))
    omega

/-! ### A pass -/

theorem map_entry_visits (agent : String) (times : Nat → String) (ts : List (Transport σ))
    (s : Store) (w : σ) :
    (visits agent times ts s w).map Visit.entry = (pollAll agent times ts s w).1 := by
  induction ts generalizing times s w with
  | nil => rfl
  | cons t ts ih =>
    rw [visits, List.map_cons, ih]
    rfl

theorem length_pollAll (agent : String) (times : Nat → String) (ts : List (Transport σ))
    (s : Store) (w : σ) : (pollAll agent times ts s w).2.1.messages.length = s.messages.length +
      (((visits agent times ts s w).map fun v => v.result.ingested).sum +
        ((visits agent times ts s w).map Visit.uncounted).sum) := by
  induction ts generalizing times s w with
  | nil => rfl
  | cons t ts ih =>
    rcases hvisit : visit agent t (times 0) s w with ⟨x, s₁, w₁⟩
    have hadded := added_eq hvisit
    have hrest := ih (fun i => times (i + 1)) s₁ w₁
    rw [pollAll, visits, hvisit]
    simp only [List.map_cons, List.sum_cons]
    rw [hrest, hadded]
    omega

/-- If no commit fails, nothing is left out. -/
theorem uncounted_eq_zero {agent : String} {times : Nat → String} {ts : List (Transport σ)}
    (hcommit : ∀ t ∈ ts, ∀ c w, ∃ w', t.commit c w = (.ok (), w')) {s : Store} {w : σ}
    {v : Visit σ} (hv : v ∈ visits agent times ts s w) : v.uncounted = 0 := by
  induction ts generalizing times s w with
  | nil => exact absurd hv List.not_mem_nil
  | cons t ts ih =>
    rcases hvisit : visit agent t (times 0) s w with ⟨x, s₁, w₁⟩
    rw [visits, hvisit] at hv
    rcases List.mem_cons.1 hv with rfl | hv
    · rcases visit_cases hvisit with ⟨rfl, -⟩ | ⟨_, _, rfl, -⟩ | ⟨_, rfl, -, rfl | hfails⟩
      · rfl
      · rfl
      · exact Nat.sub_self _
      · obtain ⟨c, w₂, e, w₃, hfails⟩ := hfails
        obtain ⟨w₄, hok⟩ := hcommit t List.mem_cons_self c w₂
        rw [hok] at hfails
        exact absurd (Prod.mk.inj hfails).1 (by simp)
    · exact ih (fun u hu => hcommit u (List.mem_cons_of_mem _ hu)) hv

namespace Mailbox

/-- The visits of a pass of a mailbox. -/
def visits (b : Mailbox σ) (selector : Option String) (times : Nat → String) (s : Store) (w : σ) :
    List (Visit σ) :=
  Mailroom.visits b.identity.agentId times (b.visited selector) s w

end Mailbox

theorem transports_and_length {b : Mailbox σ} {selector : Option String} {times : Nat → String}
    {s s' : Store} {w w' : σ} {receipt : Receipt}
    (h : b.receive selector times s w = (.ok receipt, s', w')) :
    receipt.transports = (b.visits selector times s w).map Visit.entry ∧
      s'.messages.length = s.messages.length +
        (((b.visits selector times s w).map fun v => v.result.ingested).sum +
          ((b.visits selector times s w).map Visit.uncounted).sum) := by
  unfold Mailbox.visits Mailbox.visited
  unfold Mailbox.receive at h
  cases hselector : Mailbox.receiveSelector selector with
  | error e =>
    rw [hselector] at h
    exact absurd (Prod.mk.inj h).1 (by simp)
  | ok x =>
    rw [hselector] at h
    obtain ⟨hreceipt, hstores⟩ := Prod.mk.inj h
    obtain ⟨rfl, -⟩ := Prod.mk.inj hstores
    obtain rfl := Except.ok.inj hreceipt
    exact ⟨(map_entry_visits ..).symm, length_pollAll ..⟩

/-- A receipt counts the rows of all visits that succeeded. That is by how much the store has
grown, except for the rows of visits that failed; there are none if no commit fails. -/
theorem ingested_eq_growth_iff {b : Mailbox σ} {selector : Option String} {times : Nat → String}
    {s s' : Store} {w w' : σ} {receipt : Receipt}
    (h : b.receive selector times s w = (.ok receipt, s', w')) :
    receipt.transports = (b.visits selector times s w).map Visit.entry ∧
      receipt.ingested = (receipt.transports.map fun x => x.2.ingested).sum ∧
      s'.messages.length = s.messages.length + (receipt.ingested +
        ((b.visits selector times s w).map Visit.uncounted).sum) ∧
      (s'.messages.length = s.messages.length + receipt.ingested ↔
        ∀ v ∈ b.visits selector times s w, ∀ reason, v.result = .failed reason → v.added = 0) ∧
      ((∀ t ∈ b.visited selector, ∀ c w, ∃ w', t.commit c w = (.ok (), w')) →
        s'.messages.length = s.messages.length + receipt.ingested) := by
  obtain ⟨htransports, hlength⟩ := transports_and_length h
  have hingested : receipt.ingested = (receipt.transports.map fun x => x.2.ingested).sum := rfl
  have hcounted : ((b.visits selector times s w).map fun v => v.result.ingested).sum =
      receipt.ingested := by
    rw [hingested, htransports, List.map_map]
    rfl
  rw [hcounted] at hlength
  -- nothing is missing if and only if no visit has left anything out
  have hiff : s'.messages.length = s.messages.length + receipt.ingested ↔
      ∀ v ∈ b.visits selector times s w, v.uncounted = 0 := by
    have hzero : ((b.visits selector times s w).map Visit.uncounted).sum = 0 ↔
        ∀ v ∈ b.visits selector times s w, v.uncounted = 0 := by
      rw [List.sum_eq_zero_iff_forall_eq_nat, List.forall_mem_map]
    rw [← hzero, hlength]
    omega
  refine ⟨htransports, hingested, hlength, hiff.trans ?_, fun hcommit => ?_⟩
  · exact forall₂_congr fun v _ => v.uncounted_eq_zero_iff
  · exact hiff.2 fun v hv => uncounted_eq_zero hcommit hv

/-! ### A cable and a wire that cannot commit -/

/-- A mailbox with a cable, and with a wire that hands over lines but cannot commit. -/
def wiredMailbox : Mailbox Surroundings where
  identity := ⟨"b", none, none⟩
  registry := [stream (.plain "cable"),
    stream { StreamSettings.plain "wire" with commitFault := some .timeout }].foldl .register .empty
  selector := .all
  file := none

/-- A line has come in on the cable and another one on the wire. -/
def lineOnEach : Surroundings :=
  (Surroundings.bare.setChannel "cable"
    ⟨["AIMAIL:1|m1|a|b|request|normal|none|aGk="], [], 0⟩).setChannel
      "wire" ⟨["AIMAIL:1|m2|a|b|request|normal|none|aGk="], [], 0⟩

/-- A pass of the mailbox on an empty store. -/
def wiredPass : Except Error Receipt × Store × Surroundings :=
  wiredMailbox.receive none (fun _ => "2025-01-01T00:00:00.000Z") .empty lineOnEach

theorem ingested_eq_growth_iff_wired :
    ∃ receipt s' w', wiredPass = (.ok receipt, s', w') ∧ s'.ids = ["m1", "m2"] ∧
      receipt.transports = [("cable", .polled 1 1), ("wire", .failed "Timeout")] ∧
      s'.messages.length = 0 + (receipt.ingested +
        ((wiredMailbox.visits none (fun _ => "2025-01-01T00:00:00.000Z") .empty lineOnEach).map
          Visit.uncounted).sum) := by
  have hpass : wiredPass = (.ok _, _, _) := rfl
  exact ⟨_, _, _, hpass, by decide +kernel, by decide +kernel, (ingested_eq_growth_iff hpass).2.2.1⟩

/-- The message on the wire is stored, but the receipt does not count it. -/
theorem stored_not_counted : wiredPass.1.toOption.map (·.ingested) = some 1 ∧
    Store.empty.messages.length = 0 ∧ wiredPass.2.1.messages.length = 2 := by
  decide +kernel

end Mailroom
