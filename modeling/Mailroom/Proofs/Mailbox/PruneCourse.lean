/-
The course of a pruning.

A pruning is a row of steps: the messages found for the memory are handed to it one after
another, then old read messages are archived, then old archived ones are deleted. Which
messages these are is settled before the first step and the memory has no say in it, so the
store afterwards is the same whatever the memory refuses.

* `Pruning.run_remember`, `Pruning.whole_eq` — what the steps come to;
* `prune_eq_whole` — a pruning is the run of its course;
* `Pruning.store_run_of_remember` — whenever a message is handed to the memory, the store is as it
  was at the beginning;
* `Recorder.noting` — a memory with a list of all that it has been handed;
* `prune_effect` — what a pruning does to the store, to the memory and in its counts.
-/
import Mailroom.Mailbox.Pruning
import Mailroom.Proofs.Store.Cutoff

namespace Mailroom

variable {σ : Type}

/-- How many of some messages a memory takes and how many it refuses, and what is left behind. -/
def rememberAll (recorder : Recorder σ) : List Message → σ → (Nat × Nat) × σ
  | [], w => ((0, 0), w)
  | m :: ms, w =>
    let (result, w) := recorder m.memoryText m.memoryTags w
    let ((taken, refused), w) := rememberAll recorder ms w
    match result with
    | .ok () => ((taken + 1, refused), w)
    | .error _ => ((taken, refused + 1), w)

namespace Pruning

variable {recorder : Recorder σ} {cutoff time : String}

theorem store_step_remember (p : Pruning σ) (m : Message) :
    (p.step recorder cutoff time (.remember m)).store = p.store := by
  rw [step]
  split
  · rfl
  · rfl

theorem store_run_remember (p : Pruning σ) (ms : List Message) :
    (p.run recorder cutoff time (ms.map .remember)).store = p.store := by
  induction ms generalizing p with
  | nil => rfl
  | cons m ms ih =>
    show ((p.step recorder cutoff time (.remember m)).run recorder cutoff time _).store = _
    rw [ih, store_step_remember]

theorem run_remember (p : Pruning σ) (ms : List Message) :
    p.run recorder cutoff time (ms.map .remember) =
      { p with
        world := (rememberAll recorder ms p.world).2
        done := { p.done with
          remembered := p.done.remembered + (rememberAll recorder ms p.world).1.1
          failures := p.done.failures + (rememberAll recorder ms p.world).1.2 } } := by
  induction ms generalizing p with
  | nil => rfl
  | cons m ms ih =>
    show (p.step recorder cutoff time (.remember m)).run recorder cutoff time _ = _
    rw [ih, rememberAll, step]
    -- the answer to this message is counted first, those to the others after it
    rcases recorder m.memoryText m.memoryTags p.world with ⟨_ | _, w⟩
    · simp only [Nat.add_right_comm, Nat.add_assoc]
    · simp only [Nat.add_right_comm, Nat.add_assoc]

theorem run_append (p : Pruning σ) (steps steps' : List PruneStep) :
    p.run recorder cutoff time (steps ++ steps') =
      (p.run recorder cutoff time steps).run recorder cutoff time steps' :=
  List.foldl_append

/-- Whenever a message is handed to the memory, the store is as it was at the beginning. -/
theorem store_run_of_remember {p : Pruning σ} {calls : List Message} {before after : List PruneStep}
    {m : Message} (h : pruneCourse calls = before ++ .remember m :: after) :
    (p.run recorder cutoff time before).store = p.store := by
  -- no step of the course after the last call is a call, so all steps before this one are calls
  have hbefore : ∃ ms : List Message, before = ms.map .remember := by
    rcases List.append_eq_append_iff.1 h with ⟨rest, hrest, htail⟩ | ⟨rest, hcalls, -⟩
    · have hmem : PruneStep.remember m ∈ [PruneStep.archive, PruneStep.delete] := by
        rw [htail]
        exact List.mem_append_right _ List.mem_cons_self
      simp at hmem
    · obtain ⟨ms, -, -, hms, -⟩ := List.map_eq_append_iff.1 hcalls
      exact ⟨ms, hms.symm⟩
  obtain ⟨ms, rfl⟩ := hbefore
  exact store_run_remember p ms

theorem whole_eq (s : Store) (calls : List Message) (w : σ) :
    whole recorder cutoff time s calls w =
      ⟨((s.archiveReadBefore cutoff time).1.deleteArchivedBefore cutoff).1,
        (rememberAll recorder calls w).2,
        (rememberAll recorder calls w).1.1, (rememberAll recorder calls w).1.2,
        (s.archiveReadBefore cutoff time).2,
        ((s.archiveReadBefore cutoff time).1.deleteArchivedBefore cutoff).2⟩ := by
  rw [whole, pruneCourse, run_append, run_remember]
  simp [start, run, step]

end Pruning

theorem prune_eq_whole {s : Store} {days : Nat} {now : Time.Instant} {cutoff : String}
    {calls : List Message} (h : s.memorable days now = .ok (cutoff, calls))
    (recorder : Recorder σ) (w : σ) :
    s.prune recorder days now w =
      (.ok (Pruning.whole recorder cutoff now.stamp s calls w).done,
        (Pruning.whole recorder cutoff now.stamp s calls w).store,
        (Pruning.whole recorder cutoff now.stamp s calls w).world) := by
  rw [Store.prune, h]

/-! ### The calls of the memory -/

theorem length_rememberAll (recorder : Recorder σ) (ms : List Message) (w : σ) :
    (rememberAll recorder ms w).1.1 + (rememberAll recorder ms w).1.2 = ms.length := by
  induction ms generalizing w with
  | nil => rfl
  | cons m ms ih =>
    rw [List.length_cons, ← ih (recorder m.memoryText m.memoryTags w).2]
    cases hcall : recorder m.memoryText m.memoryTags w with
    | mk result w' =>
      rw [rememberAll, hcall]
      cases result with
      | ok _ => exact Nat.add_right_comm ..
      | error _ => exact (Nat.add_assoc ..).symm

/-- What a message becomes in the memory. -/
def Message.memo (m : Message) : String × List String := (m.memoryText, m.memoryTags)

/-- A memory with a list of all that it has been handed. -/
def Recorder.noting (recorder : Recorder σ) : Recorder (σ × List (String × List String)) :=
  fun text tags w =>
    ((recorder text tags w.1).1, (recorder text tags w.1).2, w.2 ++ [(text, tags)])

theorem rememberAll_noting (recorder : Recorder σ) (ms : List Message) (w : σ)
    (notes : List (String × List String)) :
    rememberAll recorder.noting ms (w, notes) =
      ((rememberAll recorder ms w).1, (rememberAll recorder ms w).2,
        notes ++ ms.map Message.memo) := by
  induction ms generalizing w notes with
  | nil => simp [rememberAll]
  | cons m ms ih =>
    rw [rememberAll, rememberAll]
    simp only [Recorder.noting] at ih ⊢
    rw [ih]
    simp only [List.map_cons, List.append_assoc, List.singleton_append]
    split
    · rfl
    · rfl

/-! ### The effect of a pruning -/

/-- What a pruning does to a store: it touches messages only, and each of them by itself. -/
structure Store.PrunedTo (s : Store) (cutoff time : String) (s' : Store) : Prop where
  messages : s'.messages = s.messages.filterMap (pruneTurn cutoff time)
  roster : s'.roster = s.roster
  version : s'.version = s.version

/-- What is handed to the memory: all discoveries and reports that are about to be deleted, each
of them once, and the oldest first. -/
structure Store.HandsOver (s : Store) (cutoff : String) (calls : List Message) : Prop where
  rows : (calls.map Message.row).Perm (s.messages.filter fun r => r.isPrunable cutoff &&
    (r.type == MessageType.discovery.name || r.type == MessageType.statusReport.name))
  oldestFirst : calls.Pairwise fun a b => a.archivedAt.getD "" ≤ b.archivedAt.getD ""

theorem prunedTo (s : Store) {cutoff time : String} (hle : ¬ time < cutoff) :
    s.PrunedTo cutoff time ((s.archiveReadBefore cutoff time).1.deleteArchivedBefore cutoff).1 :=
  ⟨(turns_prune s hle).messages, rfl, rfl⟩

theorem any_memorableTypes (text : String) : memorableTypes.any (·.name == text) =
    (text == MessageType.discovery.name || text == MessageType.statusReport.name) := by
  have htypes : memorableTypes = [.statusReport, .discovery] := by decide
  rw [htypes, List.any_cons, List.any_cons, List.any_nil, Bool.or_false, Bool.or_comm,
    Bool.beq_comm (a := text), Bool.beq_comm (a := text)]

theorem exists_memorable {s : Store} {days : Nat} {now e : Time.Instant}
    (hrows : ∀ r ∈ s.messages, ∃ m, r.toMessage = .ok m) (he : now.minusDays? days = some e) :
    ∃ calls, s.memorable days now = .ok (e.stamp, calls) ∧ s.HandsOver e.stamp calls := by
  obtain ⟨calls, hcalls, hperm, hsorted⟩ :=
    Store.exists_prunableOfTypes hrows e.stamp memorableTypes
  refine ⟨calls, ?_, ?_, hsorted⟩
  · simp only [Store.memorable, bind_eq_ok, pure_eq_ok, mapError_eq_ok]
    exact ⟨e.stamp, by rw [cutoff, he], calls, hcalls, rfl⟩
  · simpa only [any_memorableTypes] using hperm

/-- What a pruning does to the store, which calls of the memory it makes, and what it counts.
The store and the calls come first, so neither depends on what the memory answers. -/
theorem prune_effect {s : Store} {days : Nat} {now e : Time.Instant}
    (hrows : ∀ r ∈ s.messages, ∃ m, r.toMessage = .ok m) (hnow : now.HasShortYear)
    (he : now.minusDays? days = some e) :
    ∃ s' calls, s.PrunedTo e.stamp now.stamp s' ∧ s.HandsOver e.stamp calls ∧
      ∀ (σ : Type) (recorder : Recorder σ) (w : σ), ∃ p,
        p = Pruning.whole recorder e.stamp now.stamp s calls w ∧
        s.prune recorder days now w = (.ok p.done, s', p.world) ∧
        p.done.remembered + p.done.failures = calls.length ∧
        p.done.deleted = s.messages.countP (·.isPrunable e.stamp) ∧
        p.done.archived = s.messages.countP (·.isArchivable e.stamp) ∧
        (s.prune recorder.noting days now (w, [])).2.2 = (p.world, calls.map Message.memo) ∧
        ∀ before m after, pruneCourse calls = before ++ .remember m :: after →
          ((Pruning.start s w).run recorder e.stamp now.stamp before).store = s := by
  have hle : ¬ now.stamp < e.stamp := not_stamp_lt_cutoff hnow (by rw [cutoff, he])
  obtain ⟨calls, hmemorable, hhands⟩ := exists_memorable hrows he
  refine ⟨_, calls, prunedTo s hle, hhands, fun σ recorder w => ⟨_, rfl, ?_, ?_, ?_, ?_, ?_, ?_⟩⟩
  · rw [prune_eq_whole hmemorable, Pruning.whole_eq]
  · rw [Pruning.whole_eq]
    exact length_rememberAll recorder calls w
  · rw [Pruning.whole_eq]
    exact (Store.snd_deleteArchivedBefore _ _).trans (Store.countPrunable_archiveReadBefore hle)
  · rw [Pruning.whole_eq]
    rfl
  · rw [prune_eq_whole hmemorable, Pruning.whole_eq, Pruning.whole_eq, rememberAll_noting]
    rfl
  · intro before m after hcourse
    exact Pruning.store_run_of_remember hcourse

/-- A discovery that was archived in November, a request that was read in December, and one
that is unread. -/
def decemberDesk : Store where
  messages := [
    Message.row ⟨"m1", "a", "b", .discovery, .normal, noConvoy, "hi", .archived,
      "2024-11-01T00:00:00.000Z", some "2024-11-02T00:00:00.000Z",
      some "2024-11-03T00:00:00.000Z"⟩,
    Message.row ⟨"m2", "a", "b", .request, .normal, noConvoy, "hi", .read,
      "2024-12-01T00:00:00.000Z", some "2024-12-02T00:00:00.000Z", none⟩,
    Message.row ⟨"m3", "a", "b", .request, .normal, noConvoy, "hi", .unread,
      "2024-12-01T00:00:00.000Z", none, none⟩]
  roster := []
  version := schemaVersion

/-- The beginning of the year 2025. -/
def newYear2025 : Time.Instant := ⟨1735689600, 0⟩

/-- The memory that takes nothing. -/
def refuse {σ : Type} : Recorder σ := fun _ _ w => (.error (.memory "full"), w)

theorem prune_effect_decemberDesk : (∀ r ∈ decemberDesk.messages, ∃ m, r.toMessage = .ok m) ∧
    newYear2025.HasShortYear ∧ newYear2025.minusDays? 0 = some newYear2025 ∧
    ∃ s' outcome, decemberDesk.prune refuse 0 newYear2025 () = (.ok outcome, s', ()) ∧
      s'.messages.map (fun r => (r.id, r.status)) = [("m2", "archived"), ("m3", "unread")] ∧
      outcome.remembered + outcome.failures = 1 ∧ outcome.deleted = 1 ∧ outcome.archived = 1 := by
  have hrows : ∀ r ∈ decemberDesk.messages, ∃ m, r.toMessage = .ok m := by
    simp only [decemberDesk, List.forall_mem_cons, toMessage_row]
    simp
  have hnow : newYear2025.HasShortYear := by
    unfold newYear2025 Time.Instant.HasShortYear
    decide
  have he : newYear2025.minusDays? 0 = some newYear2025 := by decide
  obtain ⟨s', calls, hs', hcalls, heffect⟩ := prune_effect hrows hnow he
  obtain ⟨p, -, hprune, htaken, hdeleted, harchived, -⟩ := heffect Unit refuse ()
  refine ⟨hrows, hnow, he, s', p.done, hprune, ?_, ?_, ?_, ?_⟩
  · rw [hs'.messages]
    decide +kernel
  · have hlength := hcalls.rows.length_eq
    rw [List.length_map] at hlength
    rw [htaken, hlength]
    decide +kernel
  · rw [hdeleted]
    decide +kernel
  · rw [harchived]
    decide +kernel

end Mailroom
