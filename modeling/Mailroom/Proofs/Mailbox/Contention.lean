/-
Reading and archiving one message at the same time.

A call to read a message and a call to archive it are each up to three statements on the store:
a look, a change and another look. Between any two of them other calls may make theirs, so that
what a call has seen may be out of date when it makes its change. The change itself looks at the
status again, and it is this that decides: the first archiving wins, all others are refused, and
whoever reads sees the message as read or as archived.

* `Call`, `Stage`, `Scene` — any number of calls on one message, each somewhere on its way;
* `step`, `run` — one statement of one of them, and several;
* `run_alone_read`, `run_alone_archive` — undisturbed, a call does what `Store.read` and
  `Store.archive` do;
* `InOrder` — what holds however the calls take turns, kept by every statement;
* `callers_do_not_clash` — what comes of the calls.
-/
import Mailroom.Proofs.Mailbox.OneMessage
import Mathlib.Logic.Function.Basic

namespace Mailroom

namespace Contention

/-- A call on a message, with the time that it writes if it changes the message. -/
inductive Call where
  | read (time : String)
  | archive (time : String)

/-- How far a call has come. -/
inductive Stage where
  | begin
  /-- it has seen a message that it may change -/
  | change
  /-- it has made its change, or tried to -/
  | look
  | done (result : Except Error Message)

/-- The store and the calls. It is noted whose changes have taken effect, the latest first. -/
structure Scene (ι : Type) where
  store : Store
  stage : ι → Stage
  readers : List ι
  archivers : List ι

variable {ι : Type}

/-- No call has begun. -/
def start (s : Store) : Scene ι := ⟨s, fun _ => .begin, [], []⟩

section

variable [DecidableEq ι]

/-- A call moves on to another stage. -/
def Scene.enter (x : Scene ι) (i : ι) (stage : Stage) : Scene ι :=
  { x with stage := Function.update x.stage i stage }

/-- A call on the message of this id makes its next statement. -/
def step (id : String) (calls : ι → Call) (x : Scene ι) (i : ι) : Scene ι :=
  match x.stage i, calls i with
  | .begin, .read _ =>
    match x.store.require id with
    | .error e => x.enter i (.done (.error e))
    | .ok m => if m.status = .unread then x.enter i .change else x.enter i (.done (.ok m))
  | .begin, .archive _ =>
    match x.store.require id with
    | .error e => x.enter i (.done (.error e))
    | .ok m =>
      if m.status = .archived then x.enter i (.done (.error (.alreadyArchived id)))
      else x.enter i .change
  | .change, .read time =>
    match x.store.markRead id time with
    | (s, true) => { x with store := s, readers := i :: x.readers }.enter i .look
    | (s, false) => { x with store := s }.enter i .look
  | .change, .archive time =>
    match x.store.markArchived id time with
    | (s, true) => { x with store := s, archivers := i :: x.archivers }.enter i .look
    | (s, false) => { x with store := s }.enter i (.done (.error (.alreadyArchived id)))
  | .look, _ => x.enter i (.done (x.store.require id))
  | .done _, _ => x

/-- Calls make their statements in this order. -/
def run (id : String) (calls : ι → Call) (x : Scene ι) (is : List ι) : Scene ι :=
  is.foldl (step id calls) x

section

variable {id : String} {calls : ι → Call} {x : Scene ι} {i j : ι} {stage : Stage}

@[simp] theorem stage_enter : (x.enter i stage).stage i = stage := Function.update_self ..

theorem stage_enter_of_ne (h : j ≠ i) : (x.enter i stage).stage j = x.stage j :=
  Function.update_of_ne h ..

theorem step_done {r : Except Error Message} (h : x.stage i = .done r) :
    step id calls x i = x := by
  rw [step, h]

theorem step_look (h : x.stage i = .look) :
    step id calls x i = x.enter i (.done (x.store.require id)) := by
  rw [step, h]

end

/-! ### A call by itself -/

theorem run_alone_read {calls : ι → Call} {i : ι} {time : String} (hi : calls i = .read time)
    (id : String) (s : Store) :
    (run id calls (start s) [i, i, i]).stage i = .done (s.read id time).1 ∧
      (run id calls (start s) [i, i, i]).store = (s.read id time).2 := by
  rw [Store.read]
  cases hlook : s.require id with
  | error e => simp [run, step, start, Scene.enter, hi, hlook]
  | ok m =>
    by_cases hs : m.status = .unread
    · rcases hmark : s.markRead id time with ⟨s', _ | _⟩ <;>
        simp [run, step, start, Scene.enter, hi, hlook, hs, hmark]
    · simp [run, step, start, Scene.enter, hi, hlook, hs]

theorem run_alone_archive {calls : ι → Call} {i : ι} {time : String}
    (hi : calls i = .archive time) (id : String) (s : Store) :
    (run id calls (start s) [i, i, i]).stage i = .done (s.archive id time).1 ∧
      (run id calls (start s) [i, i, i]).store = (s.archive id time).2 := by
  rw [Store.archive]
  cases hlook : s.require id with
  | error e => simp [run, step, start, Scene.enter, hi, hlook]
  | ok m =>
    by_cases hs : m.status = .archived
    · simp [run, step, start, Scene.enter, hi, hlook, hs]
    · rcases hmark : s.markArchived id time with ⟨s', _ | _⟩ <;>
        simp [run, step, start, Scene.enter, hi, hlook, hs, hmark]

end

/-! ### However the calls take turns -/

/-- The same message, where status and stamps may differ. -/
def Same (m n : Message) : Prop :=
  n = { m with status := n.status, readAt := n.readAt, archivedAt := n.archivedAt }

theorem Same.id_eq {m n : Message} (h : Same m n) : n.id = m.id := by
  rw [h]

/-- The time that a call writes. -/
def Call.time : Call → String
  | .read time => time
  | .archive time => time

/-- A stamp after the changes of some calls, of which the latest is the first. -/
def stampBy (calls : ι → Call) (writers : List ι) (old : Option String) : Option String :=
  match writers with
  | [] => old
  | i :: _ => some (calls i).time

/-- What is known of a call on `m` from its stage, when the message stored is `now`. -/
def Fits (m now : Message) (archivers : List ι) (i : ι) : Stage → Call → Prop
  | .begin, _ => True
  | .change, _ => True
  | .look, .read _ => now.status ≠ .unread
  | .look, .archive _ => i ∈ archivers
  | .done r, .read _ => ∃ n, r = .ok n ∧ Same m n ∧ n.status ≠ .unread
  | .done r, .archive _ =>
    (∃ n, r = .ok n ∧ Same m n ∧ n.status = .archived ∧ i ∈ archivers) ∨
      (r = .error (.alreadyArchived m.id) ∧ archivers ≠ [])

theorem Fits.mono {m now now' : Message} {archivers archivers' : List ι} {i : ι} {stage : Stage}
    {call : Call} (h : Fits m now archivers i stage call)
    (hstatus : now.status ≠ .unread → now'.status ≠ .unread) (hsub : archivers ⊆ archivers') :
    Fits m now' archivers' i stage call := by
  cases stage with
  | begin => trivial
  | change => trivial
  | look =>
    cases call with
    | read time => exact hstatus h
    | archive time => exact hsub h
  | done r =>
    cases call with
    | read time => exact h
    | archive time =>
      rcases h with ⟨n, hr, hsame, harchived, hi⟩ | ⟨hr, hsome⟩
      · exact .inl ⟨n, hr, hsame, harchived, hsub hi⟩
      · exact .inr ⟨hr, List.ne_nil_of_mem (hsub (List.head_mem hsome))⟩

/-- Calls on the message `m` are under way, and the message stored is `now`. -/
structure InOrder (m : Message) (calls : ι → Call) (x : Scene ι) (now : Message) : Prop where
  holds : x.store.HasOnly now
  same : Same m now
  readAt : now.readAt = stampBy calls x.readers m.readAt
  archivedAt : now.archivedAt = stampBy calls x.archivers m.archivedAt
  /-- while the message is unread, nobody has marked it as read -/
  unread : now.status = .unread → x.readers = []
  archived : now.status = .archived ↔ x.archivers ≠ []
  readOnce : x.readers.length ≤ 1
  archivedOnce : x.archivers.length ≤ 1
  fits : ∀ i, Fits m now x.archivers i (x.stage i) (calls i)

namespace InOrder

variable {m now : Message} {calls : ι → Call} {x : Scene ι} {i : ι}

theorem start {s : Store} (hids : s.ids.Nodup) (hm : m.row ∈ s.messages)
    (hnot : m.status ≠ .archived) (calls : ι → Call) : InOrder m calls (start s) m where
  holds := Store.hasOnly_of_mem hids hm
  same := rfl
  readAt := rfl
  archivedAt := rfl
  unread := fun _ => rfl
  archived := ⟨fun h => absurd h hnot, fun h => absurd rfl h⟩
  readOnce := Nat.zero_le _
  archivedOnce := Nat.zero_le _
  fits := fun _ => trivial

theorem require (h : InOrder m calls x now) : x.store.require m.id = .ok now := by
  rw [← h.same.id_eq]
  exact h.holds.require

theorem reads (h : InOrder m calls x now) (hs : now.status = .unread) {s' : Store}
    (hs' : s'.HasOnly (now.readNow (calls i).time)) :
    InOrder m calls { x with store := s', readers := i :: x.readers }
      (now.readNow (calls i).time) where
  holds := hs'
  same := by
    rw [Same, Message.readNow, h.same]
  readAt := rfl
  archivedAt := h.archivedAt
  unread := fun hread => absurd hread nofun
  archived := by
    have hnobody : ¬ x.archivers ≠ [] := fun hsome => absurd (h.archived.2 hsome) (by simp [hs])
    exact ⟨nofun, fun hsome => absurd hsome hnobody⟩
  readOnce := by
    rw [h.unread hs]
    exact Nat.le_refl 1
  archivedOnce := h.archivedOnce
  fits := fun j => (h.fits j).mono (fun _ => nofun) (List.Subset.refl _)

theorem archives (h : InOrder m calls x now) (hs : now.status ≠ .archived) {s' : Store}
    (hs' : s'.HasOnly (now.archivedNow (calls i).time)) :
    InOrder m calls { x with store := s', archivers := i :: x.archivers }
      (now.archivedNow (calls i).time) where
  holds := hs'
  same := by
    rw [Same, Message.archivedNow, h.same]
  readAt := h.readAt
  archivedAt := rfl
  unread := nofun
  archived := ⟨fun _ => List.cons_ne_nil _ _, fun _ => rfl⟩
  readOnce := h.readOnce
  archivedOnce := by
    have hnobody : x.archivers = [] := by
      by_contra hsome
      exact hs (h.archived.2 hsome)
    rw [hnobody]
    exact Nat.le_refl 1
  fits := fun j => (h.fits j).mono (fun _ => nofun) (List.subset_cons_self _ _)

variable [DecidableEq ι]

theorem enter (h : InOrder m calls x now) {stage : Stage}
    (hfits : Fits m now x.archivers i stage (calls i)) :
    InOrder m calls (x.enter i stage) now :=
  { h with
    fits := by
      intro j
      by_cases hj : j = i
      · subst hj
        rw [stage_enter]
        exact hfits
      · rw [stage_enter_of_ne hj]
        exact h.fits j }

/-- After one statement what is known of the calls fits again, and a message that was archived
still is. -/
theorem step (h : InOrder m calls x now) (i : ι) :
    ∃ now', InOrder m calls (step m.id calls x i) now' ∧
      (now.status = .archived → now'.status = .archived) := by
  have hid := h.same.id_eq
  have hfits := h.fits i
  cases hstage : x.stage i with
  | begin =>
    have hlook := h.require
    cases hcall : calls i with
    | read time =>
      simp only [Contention.step, hstage, hcall, hlook]
      by_cases hs : now.status = .unread
      · rw [if_pos hs]
        exact ⟨now, h.enter trivial, fun hs => hs⟩
      · rw [if_neg hs]
        exact ⟨now, h.enter (hcall ▸ ⟨now, rfl, h.same, hs⟩), fun hs => hs⟩
    | archive time =>
      simp only [Contention.step, hstage, hcall, hlook]
      by_cases hs : now.status = .archived
      · rw [if_pos hs]
        exact ⟨now, h.enter (hcall ▸ .inr ⟨rfl, h.archived.1 hs⟩), fun hs => hs⟩
      · rw [if_neg hs]
        exact ⟨now, h.enter trivial, fun hs => hs⟩
  | change =>
    -- the status may be another one by now, and the change goes by the one it finds
    cases hcall : calls i with
    | read time =>
      have htime : (calls i).time = time := by rw [hcall, Call.time]
      by_cases hs : now.status = .unread
      · obtain ⟨s', hmark, honly⟩ := h.holds.markRead hs (calls i).time
        rw [hid, htime] at hmark
        simp only [Contention.step, hstage, hcall, hmark]
        exact ⟨_, (h.reads hs honly).enter (hcall ▸ nofun), by simp [hs]⟩
      · have hmark := h.holds.markRead_of_not hs time
        rw [hid] at hmark
        simp only [Contention.step, hstage, hcall, hmark]
        exact ⟨now, h.enter (hcall ▸ hs), fun hs => hs⟩
    | archive time =>
      have htime : (calls i).time = time := by rw [hcall, Call.time]
      by_cases hs : now.status = .archived
      · have hmark := h.holds.markArchived_of_not hs time
        rw [hid] at hmark
        simp only [Contention.step, hstage, hcall, hmark]
        exact ⟨now, h.enter (hcall ▸ .inr ⟨rfl, h.archived.1 hs⟩), fun hs => hs⟩
      · obtain ⟨s', hmark, honly⟩ := h.holds.markArchived hs (calls i).time
        rw [hid, htime] at hmark
        simp only [Contention.step, hstage, hcall, hmark]
        exact ⟨_, (h.archives hs honly).enter (hcall ▸ List.mem_cons_self), fun _ => rfl⟩
  | look =>
    rw [step_look hstage, h.require]
    rw [hstage] at hfits
    refine ⟨now, h.enter ?_, fun hs => hs⟩
    cases hcall : calls i with
    | read time =>
      rw [hcall] at hfits
      exact ⟨now, rfl, h.same, hfits⟩
    | archive time =>
      rw [hcall] at hfits
      exact .inl ⟨now, rfl, h.same, h.archived.2 (List.ne_nil_of_mem hfits), hfits⟩
  | done r =>
    rw [step_done hstage]
    exact ⟨now, h, fun hs => hs⟩

theorem run (h : InOrder m calls x now) (is : List ι) :
    ∃ now', InOrder m calls (run m.id calls x is) now' ∧
      (now.status = .archived → now'.status = .archived) := by
  induction is generalizing x now with
  | nil => exact ⟨now, h, fun hs => hs⟩
  | cons i is ih =>
    obtain ⟨now₁, hstep, hstays⟩ := h.step i
    obtain ⟨now₂, hrun, hstays'⟩ := ih hstep
    exact ⟨now₂, hrun, fun hs => hstays' (hstays hs)⟩

end InOrder

/-! ### Every call comes to its end -/

section

variable [DecidableEq ι] {id : String} {calls : ι → Call} {x : Scene ι} {i j : ι}

/-- How many statements a call has behind it at least, where the last is the third. -/
def Stage.rank : Stage → Nat
  | .begin => 0
  | .change => 1
  | .look => 2
  | .done _ => 3

/-- A statement moves its call on and leaves the others where they are, unless the call is done. -/
theorem step_cases (id : String) (calls : ι → Call) (x : Scene ι) (i : ι) :
    (∃ r, x.stage i = .done r ∧ step id calls x i = x) ∨
      ∃ (y : Scene ι) (stage : Stage), step id calls x i = y.enter i stage ∧ y.stage = x.stage ∧
        (x.stage i).rank < stage.rank := by
  cases hstage : x.stage i with
  | begin =>
    refine .inr ?_
    cases hcall : calls i with
    | read time =>
      simp only [step, hstage, hcall]
      split
      · exact ⟨x, _, rfl, rfl, by simp [Stage.rank]⟩
      · split
        · exact ⟨x, _, rfl, rfl, by simp [Stage.rank]⟩
        · exact ⟨x, _, rfl, rfl, by simp [Stage.rank]⟩
    | archive time =>
      simp only [step, hstage, hcall]
      split
      · exact ⟨x, _, rfl, rfl, by simp [Stage.rank]⟩
      · split
        · exact ⟨x, _, rfl, rfl, by simp [Stage.rank]⟩
        · exact ⟨x, _, rfl, rfl, by simp [Stage.rank]⟩
  | change =>
    refine .inr ?_
    cases hcall : calls i with
    | read time =>
      simp only [step, hstage, hcall]
      split
      · exact ⟨_, _, rfl, rfl, by simp [Stage.rank]⟩
      · exact ⟨_, _, rfl, rfl, by simp [Stage.rank]⟩
    | archive time =>
      simp only [step, hstage, hcall]
      split
      · exact ⟨_, _, rfl, rfl, by simp [Stage.rank]⟩
      · exact ⟨_, _, rfl, rfl, by simp [Stage.rank]⟩
  | look => exact .inr ⟨x, _, step_look hstage, rfl, by simp [Stage.rank]⟩
  | done r => exact .inl ⟨r, rfl, step_done hstage⟩

theorem stage_step_of_ne (h : j ≠ i) : (step id calls x i).stage j = x.stage j := by
  obtain ⟨r, -, hstep⟩ | ⟨y, stage, hstep, hy, -⟩ := step_cases id calls x i
  · rw [hstep]
  · rw [hstep, stage_enter_of_ne h, hy]

theorem rank_step (id : String) (calls : ι → Call) (x : Scene ι) (i : ι) :
    min 3 ((x.stage i).rank + 1) ≤ ((step id calls x i).stage i).rank := by
  obtain ⟨r, hdone, hstep⟩ | ⟨y, stage, hstep, -, hlt⟩ := step_cases id calls x i
  · rw [hstep, hdone]
    exact Nat.min_le_left _ _
  · rw [hstep, stage_enter]
    exact Nat.le_trans (Nat.min_le_right _ _) hlt

theorem rank_run (id : String) (calls : ι → Call) (x : Scene ι) (i : ι) (is : List ι) :
    min 3 ((x.stage i).rank + is.count i) ≤ ((run id calls x is).stage i).rank := by
  induction is generalizing x with
  | nil => exact Nat.min_le_right _ _
  | cons j is ih =>
    have hrest : min 3 (((step id calls x j).stage i).rank + is.count i) ≤
        ((run id calls x (j :: is)).stage i).rank := ih _
    by_cases hj : i = j
    · subst hj
      have hstep := rank_step id calls x i
      rw [List.count_cons_self]
      omega
    · rw [stage_step_of_ne hj] at hrest
      rw [List.count_cons_of_ne (Ne.symm hj)]
      exact hrest

theorem exists_done {is : List ι} (h : 3 ≤ is.count i) :
    ∃ r, (run id calls x is).stage i = .done r := by
  have hrank := rank_run id calls x i is
  cases hstage : (run id calls x is).stage i with
  | done r => exact ⟨r, rfl⟩
  | _ =>
    rw [hstage, Stage.rank] at hrank
    omega

/-! ### What comes of the calls -/

/-- Where the calls on a message stand, whichever of them are done and however far the others have
come. -/
structure Settled (m : Message) (calls : ι → Call) (x : Scene ι) : Prop where
  /-- at most one call archives the message -/
  oneArchives : ∀ i j t t' n n', calls i = .archive t → calls j = .archive t' →
    x.stage i = .done (.ok n) → x.stage j = .done (.ok n') → i = j
  /-- all others are told that somebody has -/
  archiving : ∀ i t r, calls i = .archive t → x.stage i = .done r →
    (∃ n, r = .ok n ∧ Same m n ∧ n.status = .archived) ∨
      r = .error (.alreadyArchived m.id) ∧ x.archivers ≠ []
  /-- whoever reads is shown the message, and not as unread -/
  reading : ∀ i t r, calls i = .read t → x.stage i = .done r →
    ∃ n, r = .ok n ∧ Same m n ∧ (n.status = .read ∨ n.status = .archived)
  readOnce : x.readers.length ≤ 1
  archivedOnce : x.archivers.length ≤ 1
  /-- a stamp is the one that was there or that of the one call whose change took effect -/
  stored : ∃ now, x.store.require m.id = .ok now ∧ Same m now ∧
    now.readAt = stampBy calls x.readers m.readAt ∧
    now.archivedAt = stampBy calls x.archivers m.archivedAt
  /-- what is archived stays archived, whatever the calls do next -/
  staysArchived : x.archivers ≠ [] → ∀ js, ∃ now,
    (run m.id calls x js).store.require m.id = .ok now ∧ now.status = .archived

theorem InOrder.settled {m now : Message} (h : InOrder m calls x now) : Settled m calls x where
  oneArchives := by
    intro i j t t' n n' hi hj hdone hdone'
    have hmem : ∀ k t n, calls k = .archive t → x.stage k = .done (.ok n) → k ∈ x.archivers := by
      intro k t n hk hdone
      have hfits := h.fits k
      rw [hdone, hk] at hfits
      rcases hfits with ⟨-, -, -, -, hin⟩ | ⟨herror, -⟩
      · exact hin
      · exact absurd herror nofun
    have hi := hmem i t n hi hdone
    have hj := hmem j t' n' hj hdone'
    obtain ⟨a, ha⟩ : ∃ a, x.archivers = [a] :=
      List.length_eq_one_iff.1 (Nat.le_antisymm h.archivedOnce (List.length_pos_of_mem hi))
    rw [ha, List.mem_singleton] at hi hj
    exact hi.trans hj.symm
  archiving := by
    intro i t r hi hdone
    have hfits := h.fits i
    rw [hdone, hi] at hfits
    exact hfits.imp_left fun ⟨n, hr, hsame, hs, _⟩ => ⟨n, hr, hsame, hs⟩
  reading := by
    intro i t r hi hdone
    have hfits := h.fits i
    rw [hdone, hi] at hfits
    obtain ⟨n, hr, hsame, hs⟩ := hfits
    refine ⟨n, hr, hsame, ?_⟩
    cases hn : n.status with
    | unread => exact absurd hn hs
    | read => exact .inl rfl
    | archived => exact .inr rfl
  readOnce := h.readOnce
  archivedOnce := h.archivedOnce
  stored := ⟨now, h.require, h.same, h.readAt, h.archivedAt⟩
  staysArchived := by
    intro hsome js
    obtain ⟨now', hrun, hstays⟩ := h.run js
    exact ⟨now', hrun.require, hstays (h.archived.2 hsome)⟩

/-- A message is stored and not archived. Whatever calls are made on it and in whatever order they
make their statements, the calls do not clash, and a call that has had three turns is done. -/
theorem callers_do_not_clash {s : Store} {m : Message} (hids : s.ids.Nodup)
    (hm : m.row ∈ s.messages) (hnot : m.status ≠ .archived) (calls : ι → Call) (is : List ι) :
    Settled m calls (run m.id calls (start s) is) ∧
      ∀ i, 3 ≤ is.count i → ∃ r, (run m.id calls (start s) is).stage i = .done r := by
  obtain ⟨now, hrun, -⟩ := (InOrder.start hids hm hnot calls).run is
  exact ⟨hrun.settled, fun i hi => exists_done hi⟩

/-- A message that nobody has read. -/
def notice : Message :=
  ⟨"m1", "a", "b", .request, .normal, noConvoy, "hi", .unread, "2025-01-01T00:00:00.000Z", none,
    none⟩

/-- The call 0 reads the message, and all others archive it. -/
def readerAndArchivers (i : Nat) : Call :=
  if i = 0 then .read "2025-01-02T00:00:00.000Z" else .archive "2025-01-03T00:00:00.000Z"

/-- All have seen the message as unread when the call 2 archives it, and then the others try. -/
def twoTooLate : Scene Nat :=
  run "m1" readerAndArchivers (start ⟨[notice.row], [], 2⟩) [0, 1, 2, 2, 1, 0, 0, 2]

/-- The call 1 is refused, and the call 0 is shown the message as archived. -/
theorem callers_do_not_clash_notice :
    twoTooLate.archivers = [2] ∧ twoTooLate.readers = [] ∧
      twoTooLate.stage 1 = .done (.error (.alreadyArchived "m1")) ∧
      twoTooLate.stage 0 = .done (.ok (notice.archivedNow "2025-01-03T00:00:00.000Z")) ∧
      Settled notice readerAndArchivers twoTooLate := by
  have hids : (⟨[notice.row], [], 2⟩ : Store).ids.Nodup := List.nodup_singleton _
  have hsettled := (callers_do_not_clash hids (List.mem_singleton_self _) (by simp [notice])
    readerAndArchivers [0, 1, 2, 2, 1, 0, 0, 2]).1
  exact ⟨rfl, rfl, rfl, rfl, hsettled⟩

end

end Contention

end Mailroom
