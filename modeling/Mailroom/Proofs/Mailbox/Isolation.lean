/-
A transport whose fetch fails.

A pass visits each transport that leads to other machines, in the order of names, and says of each
what came of it. A fetch that fails ends the visit: nothing is stored and nothing is committed.
What the transports after it see of the failure is what the fetch has done to the surroundings; if
they cannot tell the surroundings before and after it apart, then all that is said, stored and
committed of the others is the same as without this transport.

* `Transport.logging`, `pollAll_logging` — a pass with a note of each commit;
* `Store.SameMail` — stores with the same rows, but for the times at which they arrived;
* `visit_alike`, `pollAll_alike` — a visit and a pass where nothing can be told apart;
* `pollAll_without` — a pass with a fetch that fails, and the pass without this transport;
* `network_without` — a registry in which a name was never registered;
* `failed_fetch_is_isolated` — receiving, with whatever transports.
-/
import Mailroom.Proofs.Mailbox.FirstEnvelopes
import Mailroom.Proofs.Transport.Indistinct
import Mailroom.Proofs.Transport.Relaying

namespace Mailroom

variable {σ : Type}

/-! ### Notes of commits -/

/-- The transport that makes a note of its name and of each checkpoint that it commits. -/
def Transport.logging (t : Transport σ) : Transport (σ × List (String × Checkpoint)) where
  name := t.name
  isNetwork := t.isNetwork
  available w := t.available w.1
  canReceive w := t.canReceive w.1
  describe w := t.describe w.1
  send line w := ((t.send line w.1).1, (t.send line w.1).2, w.2)
  fetch w := ((t.fetch w.1).1, (t.fetch w.1).2, w.2)
  commit c w := ((t.commit c w.1).1, (t.commit c w.1).2, w.2 ++ [(t.name, c)])

/-- The mailbox in which all transports make notes of their commits. -/
def Mailbox.logging (b : Mailbox σ) : Mailbox (σ × List (String × Checkpoint)) :=
  ⟨b.identity, ⟨b.registry.transports.map .logging⟩, b.selector, b.file⟩

/-- What a visit to a transport commits. -/
def Transport.commits (t : Transport σ) (w : σ) : List (String × Checkpoint) :=
  if t.canReceive w then
    match t.fetch w with
    | (.error _, _) => []
    | (.ok fetched, _) => [(t.name, fetched.checkpoint)]
  else []

/-- What a pass over several transports commits. -/
def commitsAll : List (Transport σ) → σ → List (String × Checkpoint)
  | [], _ => []
  | t :: ts, w => t.commits w ++ commitsAll ts (t.pull w).2

theorem visit_logging (agent : String) (t : Transport σ) (time : String) (s : Store) (w : σ)
    (log : List (String × Checkpoint)) :
    visit agent t.logging time s (w, log) = ((visit agent t time s w).1,
      (visit agent t time s w).2.1, (visit agent t time s w).2.2, log ++ t.commits w) := by
  have hfetch : t.logging.fetch (w, log) = ((t.fetch w).1, (t.fetch w).2, log) := rfl
  rw [visit, visit, Transport.commits]
  show (if t.canReceive w then _ else _) = _
  by_cases hcan : t.canReceive w
  · rw [if_pos hcan, if_pos hcan, if_pos hcan, poll, poll, hfetch]
    rcases t.fetch w with ⟨e | fetched, w₁⟩
    · rw [List.append_nil]
    · have hcommit : t.logging.commit fetched.checkpoint (w₁, log) =
          ((t.commit fetched.checkpoint w₁).1, (t.commit fetched.checkpoint w₁).2,
            log ++ [(t.name, fetched.checkpoint)]) := rfl
      dsimp only
      rw [hcommit]
      rcases t.commit fetched.checkpoint w₁ with ⟨e | _, w₂⟩
      · rfl
      · rfl
  · rw [if_neg hcan, if_neg hcan, if_neg hcan, List.append_nil]

theorem visit_surroundings (agent : String) (t : Transport σ) (time : String) (s : Store) (w : σ) :
    (visit agent t time s w).2.2 = (t.pull w).2 :=
  congrArg Prod.snd (visit_eq agent t time s w)

/-- A pass whose transports make notes goes as before, and the notes are of its commits. -/
theorem pollAll_logging (agent : String) (times : Nat → String) (ts : List (Transport σ))
    (s : Store) (w : σ) (log : List (String × Checkpoint)) :
    pollAll agent times (ts.map .logging) s (w, log) = ((pollAll agent times ts s w).1,
      (pollAll agent times ts s w).2.1, (pollAll agent times ts s w).2.2,
      log ++ commitsAll ts w) := by
  induction ts generalizing times s w log with
  | nil =>
    rw [commitsAll, List.append_nil]
    rfl
  | cons t ts ih =>
    rw [List.map_cons, pollAll, visit_logging, pollAll]
    dsimp only
    rw [ih, visit_surroundings, commitsAll, List.append_assoc]
    rfl

theorem names_commitsAll {ts : List (Transport σ)} {w : σ} {p : String × Checkpoint}
    (hp : p ∈ commitsAll ts w) : ∃ t ∈ ts, t.name = p.1 := by
  induction ts generalizing w with
  | nil => exact absurd hp List.not_mem_nil
  | cons t ts ih =>
    rcases List.mem_append.1 hp with hp | hp
    · refine ⟨t, List.mem_cons_self, ?_⟩
      unfold Transport.commits at hp
      split at hp
      · split at hp
        · exact absurd hp List.not_mem_nil
        · rw [List.mem_singleton.1 hp]
      · exact absurd hp List.not_mem_nil
    · obtain ⟨u, hu, hname⟩ := ih hp
      exact ⟨u, List.mem_cons_of_mem _ hu, hname⟩

/-! ### What cannot be told apart -/

/-- Two stores hold the same rows, but for the times at which the messages arrived. -/
def Store.SameMail (s s' : Store) : Prop :=
  s.messages.map MessageRow.untimed = s'.messages.map MessageRow.untimed

namespace Store.SameMail

variable {s s' : Store}

theorem refl (s : Store) : s.SameMail s := rfl

theorem symm (h : s.SameMail s') : s'.SameMail s := Eq.symm h

theorem ids_eq (h : s.SameMail s') : s.ids = s'.ids := by
  have hids := congrArg (List.map (·.id)) h
  rw [List.map_map, List.map_map] at hids
  exact hids

theorem ingest (h : s.SameMail s') (e : Envelope) (time time' : String) :
    (s.ingest (e.arrived time)).2 = (s'.ingest (e.arrived time')).2 ∧
      (s.ingest (e.arrived time)).1.SameMail (s'.ingest (e.arrived time')).1 := by
  have hholds : s.holds (e.arrived time).id = s'.holds (e.arrived time').id := by
    rw [Bool.eq_iff_iff, holds_iff, holds_iff, h.ids_eq]
    rfl
  rw [Store.ingest, Store.ingest, hholds]
  split
  · exact ⟨rfl, h⟩
  · refine ⟨rfl, ?_⟩
    show (s.messages ++ [_]).map _ = (s'.messages ++ [_]).map _
    rw [List.map_append, List.map_append, show s.messages.map _ = _ from h]
    rfl

theorem ingestAll (h : s.SameMail s') (agent time time' : String) (es : List Envelope) :
    (ingestAll agent time es s).2 = (Mailroom.ingestAll agent time' es s').2 ∧
      (Mailroom.ingestAll agent time es s).1.SameMail
        (Mailroom.ingestAll agent time' es s').1 := by
  induction es generalizing s s' with
  | nil => exact ⟨rfl, h⟩
  | cons e es ih =>
    rw [Mailroom.ingestAll, Mailroom.ingestAll]
    split
    · obtain ⟨hadded, hstores⟩ := h.ingest e time time'
      obtain ⟨hcount, hstores⟩ := ih hstores
      exact ⟨congrArg₂ (fun n added => n + Bool.toNat added) hcount hadded, hstores⟩
    · exact ih h

end Store.SameMail

section

variable {alike : σ → σ → Prop} {s s' : Store} {w w' : σ}

theorem commits_alike {t : Transport σ} (ht : t.Respects alike) (hw : alike w w') :
    t.commits w = t.commits w' := by
  obtain ⟨hfetched, -⟩ := ht.fetch hw
  rw [Transport.commits, Transport.commits, ht.canReceive hw]
  rcases hfetch : t.fetch w with ⟨r, w₁⟩
  rcases hfetch' : t.fetch w' with ⟨r', w₁'⟩
  rw [hfetch, hfetch'] at hfetched
  obtain rfl : r = r' := hfetched
  rcases r with e | fetched
  · rfl
  · rfl

/-- A visit says and stores the same in surroundings that are alike, and leaves them alike. -/
theorem visit_alike {t : Transport σ} (ht : t.Respects alike) (agent time time' : String)
    (hs : s.SameMail s') (hw : alike w w') :
    (visit agent t time s w).1 = (visit agent t time' s' w').1 ∧
      (visit agent t time s w).2.1.SameMail (visit agent t time' s' w').2.1 ∧
      alike (visit agent t time s w).2.2 (visit agent t time' s' w').2.2 := by
  rw [visit, visit, ht.canReceive hw]
  split
  · obtain ⟨hfetched, hw₁⟩ := ht.fetch hw
    rw [poll, poll]
    rcases hfetch : t.fetch w with ⟨r, w₁⟩
    rcases hfetch' : t.fetch w' with ⟨r', w₁'⟩
    rw [hfetch, hfetch'] at hfetched hw₁
    obtain rfl : r = r' := hfetched
    rcases r with e | fetched
    · exact ⟨rfl, hs, hw₁⟩
    · obtain ⟨hcount, hstores⟩ := hs.ingestAll agent time time' fetched.envelopes
      obtain ⟨hcommitted, hw₂⟩ := ht.commit fetched.checkpoint hw₁
      dsimp only at hw₂ hcommitted ⊢
      rcases hcommit : t.commit fetched.checkpoint w₁ with ⟨r, w₂⟩
      rcases hcommit' : t.commit fetched.checkpoint w₁' with ⟨r', w₂'⟩
      rw [hcommit, hcommit'] at hcommitted hw₂
      obtain rfl : r = r' := hcommitted
      rcases r with e | _
      · exact ⟨rfl, hstores, hw₂⟩
      · exact ⟨congrArg (PollResult.polled _) hcount, hstores, hw₂⟩
  · exact ⟨rfl, hs, hw⟩

/-- So does a pass, at whatever times. -/
theorem pollAll_alike {ts : List (Transport σ)} (hts : ∀ t ∈ ts, t.Respects alike)
    (agent : String) (times times' : Nat → String) (hs : s.SameMail s') (hw : alike w w') :
    (pollAll agent times ts s w).1 = (pollAll agent times' ts s' w').1 ∧
      (pollAll agent times ts s w).2.1.SameMail (pollAll agent times' ts s' w').2.1 ∧
      alike (pollAll agent times ts s w).2.2 (pollAll agent times' ts s' w').2.2 ∧
      commitsAll ts w = commitsAll ts w' := by
  induction ts generalizing times times' s s' w w' with
  | nil => exact ⟨rfl, hs, hw, rfl⟩
  | cons t ts ih =>
    have ht := hts t List.mem_cons_self
    obtain ⟨hresult, hstores, hsurroundings⟩ := visit_alike ht agent (times 0) (times' 0) hs hw
    obtain ⟨hresults, hends, hsurroundings', hcommits⟩ :=
      ih (fun u hu => hts u (List.mem_cons_of_mem _ hu)) (fun i => times (i + 1))
        (fun i => times' (i + 1)) hstores hsurroundings
    rw [visit_surroundings, visit_surroundings] at hcommits
    refine ⟨?_, hends, hsurroundings', ?_⟩
    · exact congrArg₂ (fun x xs => (t.name, x) :: xs) hresult hresults
    · rw [commitsAll, commitsAll, commits_alike ht hw, hcommits]

end

/-! ### A fetch that fails -/

theorem pollAll_append (agent : String) (times : Nat → String) (ts us : List (Transport σ))
    (s : Store) (w : σ) :
    pollAll agent times (ts ++ us) s w =
      let front := pollAll agent times ts s w
      let back := pollAll agent (fun i => times (i + ts.length)) us front.2.1 front.2.2
      (front.1 ++ back.1, back.2) := by
  induction ts generalizing times s w with
  | nil => rfl
  | cons t ts ih =>
    rw [List.cons_append, pollAll, pollAll]
    dsimp only
    rw [ih]
    simp only [List.length_cons, List.cons_append, Nat.add_assoc]

theorem commitsAll_append (times : Nat → String) (ts us : List (Transport σ)) (w : σ) :
    commitsAll (ts ++ us) w = commitsAll ts w ++ commitsAll us (pullAll times ts w).2 := by
  induction ts generalizing times w with
  | nil => rfl
  | cons t ts ih =>
    rw [List.cons_append, commitsAll, ih (fun i => times (i + 1)), commitsAll, pullAll,
      List.append_assoc]

section

variable {t : Transport σ} {w w₁ : σ} {e : TransportFault}

theorem visit_of_fetch_error (agent time : String) (s : Store) (hcan : t.canReceive w = true)
    (hfetch : t.fetch w = (.error e, w₁)) :
    visit agent t time s w = (.failed e.message, s, w₁) := by
  rw [visit, if_pos hcan, poll, hfetch]

theorem commits_of_fetch_error (hfetch : t.fetch w = (.error e, w₁)) : t.commits w = [] := by
  rw [Transport.commits, hfetch]
  exact ite_self _

theorem pull_of_fetch_error (hcan : t.canReceive w = true)
    (hfetch : t.fetch w = (.error e, w₁)) : (t.pull w).2 = w₁ := by
  rw [Transport.pull, if_pos hcan, hfetch]

end

/-- A fetch that fails is followed by no commit. -/
theorem not_mem_commitsAll {front back : List (Transport σ)} {t : Transport σ} {w w₁ : σ}
    {times : Nat → String} {e : TransportFault}
    (hfetch : t.fetch (pullAll times front w).2 = (.error e, w₁))
    (hnames : ∀ u ∈ front ++ back, u.name ≠ t.name) :
    t.name ∉ (commitsAll (front ++ t :: back) w).map Prod.fst := by
  intro hin
  obtain ⟨p, hp, hname⟩ := List.mem_map.1 hin
  rw [commitsAll_append times, commitsAll, commits_of_fetch_error hfetch, List.nil_append] at hp
  rcases List.mem_append.1 hp with hp | hp
  · obtain ⟨u, hu, huname⟩ := names_commitsAll hp
    exact hnames u (List.mem_append_left _ hu) (huname.trans hname)
  · obtain ⟨u, hu, huname⟩ := names_commitsAll hp
    exact hnames u (List.mem_append_right _ hu) (huname.trans hname)

theorem names_pollAll (agent : String) (times : Nat → String) (ts : List (Transport σ)) (s : Store)
    (w : σ) : (pollAll agent times ts s w).1.map Prod.fst = ts.map (·.name) := by
  induction ts generalizing times s w with
  | nil => rfl
  | cons t ts ih => exact congrArg (t.name :: ·) (ih _ _ _)

/-- Where a fetch fails, all others say, store and commit the same as in a pass without it. -/
theorem pollAll_without {front back : List (Transport σ)} {t : Transport σ} {w w₁ : σ}
    {times : Nat → String} {e : TransportFault}
    (hcan : t.canReceive (pullAll times front w).2 = true)
    (hfetch : t.fetch (pullAll times front w).2 = (.error e, w₁))
    (hback : Indistinct back (pullAll times front w).2 w₁) (agent : String)
    (times' : Nat → String) (s : Store) :
    ∃ before after, before.map Prod.fst = front.map (·.name) ∧
      after.map Prod.fst = back.map (·.name) ∧
      (pollAll agent times (front ++ t :: back) s w).1 =
        before ++ (t.name, .failed e.message) :: after ∧
      (pollAll agent times' (front ++ back) s w).1 = before ++ after ∧
      (pollAll agent times (front ++ t :: back) s w).2.1.SameMail
        (pollAll agent times' (front ++ back) s w).2.1 ∧
      commitsAll (front ++ t :: back) w = commitsAll (front ++ back) w := by
  obtain ⟨alike, hrespects, hw⟩ := hback
  have hturn := congrArg Prod.snd (pollAll_eq agent times front s w)
  dsimp only at hturn
  -- the transports before the failure cannot notice it
  obtain ⟨hbefore, hstore, hsurroundings, -⟩ := pollAll_alike
    (fun u (_ : u ∈ front) => u.respects_eq) agent times' times (.refl s) (rfl : w = w)
  have hfailed : visit agent t (times (0 + front.length)) (pollAll agent times front s w).2.1
      (pullAll times front w).2 =
      (.failed e.message, (pollAll agent times front s w).2.1, w₁) :=
    visit_of_fetch_error _ _ _ hcan hfetch
  obtain ⟨hafter, hend, -, hcommits⟩ := pollAll_alike hrespects agent
    (fun i => times' (i + front.length)) (fun i => times (i + 1 + front.length)) hstore hw
  refine ⟨(pollAll agent times front s w).1, (pollAll agent (fun i => times (i + 1 + front.length))
    back (pollAll agent times front s w).2.1 w₁).1, names_pollAll .., names_pollAll .., ?_, ?_, ?_,
    ?_⟩
  · rw [pollAll_append]
    dsimp only
    rw [hturn, pollAll, hfailed]
  · rw [pollAll_append]
    dsimp only
    rw [hbefore, hsurroundings, hturn, hafter]
  · rw [pollAll_append, pollAll_append]
    dsimp only
    rw [hturn, pollAll, hfailed, hsurroundings, hturn]
    exact hend.symm
  · rw [commitsAll_append times, commitsAll_append times, commitsAll, commits_of_fetch_error hfetch,
      pull_of_fetch_error hcan hfetch, hcommits]
    rfl

theorem mem_pollAll (agent : String) (times : Nat → String) (front back : List (Transport σ))
    (t : Transport σ) (s : Store) (w : σ) :
    (t.name, (visit agent t (times (0 + front.length)) (pollAll agent times front s w).2.1
      (pullAll times front w).2).1) ∈ (pollAll agent times (front ++ t :: back) s w).1 := by
  have hturn := congrArg Prod.snd (pollAll_eq agent times front s w)
  dsimp only at hturn
  rw [pollAll_append, ← hturn]
  exact List.mem_append_right _ List.mem_cons_self

/-! ### A registry without a name -/

theorem insertByName_of_lt {t : Transport σ} {us : List (Transport σ)}
    (h : ∀ u ∈ us, t.name < u.name) : insertByName t us = t :: us := by
  cases us with
  | nil => rfl
  | cons u us => rw [insertByName, if_pos (h u List.mem_cons_self)]

theorem filter_insertByName {t : Transport σ} {us : List (Transport σ)} (name : String)
    (hus : us.Pairwise fun u v => u.name < v.name) :
    (insertByName t us).filter (·.name != name) =
      if t.name = name then us.filter (·.name != name)
      else insertByName t (us.filter (·.name != name)) := by
  have hcons : ∀ (u : Transport σ) vs, (u :: vs).filter (·.name != name) =
      if u.name = name then vs.filter (·.name != name)
      else u :: vs.filter (·.name != name) := by
    intro u vs
    rw [List.filter_cons]
    by_cases h : u.name = name
    · rw [if_pos h, if_neg (by simpa using h)]
    · rw [if_neg h, if_pos (bne_iff_ne.2 h)]
  induction us with
  | nil => exact hcons t []
  | cons u us ih =>
    obtain ⟨hu, hus⟩ := List.pairwise_cons.1 hus
    have ih := ih hus
    rw [insertByName]
    split
    · rename_i hlt
      -- if the first of the rest is left out, the new one is still before all that stay
      have hall : ∀ v ∈ (u :: us).filter (·.name != name), t.name < v.name := by
        intro v hv
        rcases List.mem_cons.1 (List.mem_filter.1 hv).1 with rfl | hv
        · exact hlt
        · exact lt_trans hlt (hu v hv)
      rw [insertByName_of_lt hall, hcons t]
    · rename_i hlt
      split
      · rename_i heq
        rw [hcons t, hcons u, ← heq]
        split
        · rfl
        · rw [insertByName, if_neg hlt, if_pos heq]
      · rename_i hne
        rw [hcons u, hcons u, ih]
        by_cases hname : u.name = name
        · rw [if_pos hname, if_pos hname]
        · rw [if_neg hname, if_neg hname, insertByName, if_neg hlt, if_neg hne]
          split
          · rfl
          · rfl

/-- Leaving a name out of a registry is never registering it. -/
theorem transports_without {r : Registry σ} (hr : r.Ordered) (ts : List (Transport σ))
    (name : String) :
    ((ts.filter (·.name != name)).foldl Registry.register
        ⟨r.transports.filter (·.name != name)⟩).transports =
      (ts.foldl Registry.register r).transports.filter (·.name != name) := by
  induction ts generalizing r with
  | nil => rfl
  | cons t ts ih =>
    have hinsert := filter_insertByName (t := t) name hr
    rw [List.foldl_cons, ← ih (Registry.ordered_register hr t), List.filter_cons]
    split
    · rename_i hne
      rw [if_neg (bne_iff_ne.1 hne)] at hinsert
      rw [List.foldl_cons, Registry.register, Registry.register, hinsert]
    · rename_i heq
      rw [if_pos (by simpa using heq)] at hinsert
      rw [Registry.register, hinsert]

theorem network_without (ts : List (Transport σ)) (name : String) :
    ((ts.filter (·.name != name)).foldl Registry.register .empty).network =
      (ts.foldl Registry.register .empty).network.filter (·.name != name) := by
  have hwithout := transports_without Registry.ordered_empty ts name
  rw [Registry.network, Registry.network, List.filter_filter]
  have hcomm : ∀ us : List (Transport σ),
      us.filter (fun u => u.name != name && u.isNetwork) =
        (us.filter (·.name != name)).filter (·.isNetwork) := by
    intro us
    rw [List.filter_filter]
    exact List.filter_congr fun u _ => Bool.and_comm ..
  rw [hcomm, ← hwithout]
  rfl

/-! ### Receiving -/

namespace Mailbox

/-- The mailbox with these transports registered, one after another, in place of its own. -/
def equipped (b : Mailbox σ) (ts : List (Transport σ)) : Mailbox σ :=
  { b with registry := ts.foldl .register .empty }

theorem network_equipped_without (b : Mailbox σ) (ts : List (Transport σ)) (name : String) :
    (b.equipped (ts.filter (·.name != name))).registry.network =
      (b.equipped ts).registry.network.filter (·.name != name) :=
  network_without ts name

theorem network_logging (b : Mailbox σ) :
    b.logging.registry.network = b.registry.network.map .logging := by
  show (b.registry.transports.map _).filter _ = (b.registry.transports.filter _).map _
  rw [List.filter_map]
  rfl

theorem receive_none (b : Mailbox σ) (times : Nat → String) (s : Store) (w : σ) :
    b.receive none times s w =
      (.ok ⟨(pollAll b.identity.agentId times b.registry.network s w).1⟩,
        (pollAll b.identity.agentId times b.registry.network s w).2) := rfl

/-- Receiving from all transports, with a note of each commit. -/
theorem receive_none_logging (b : Mailbox σ) (times : Nat → String) (s : Store) (w : σ) :
    b.logging.receive none times s (w, []) =
      (.ok ⟨(pollAll b.identity.agentId times b.registry.network s w).1⟩,
        (pollAll b.identity.agentId times b.registry.network s w).2.1,
        (pollAll b.identity.agentId times b.registry.network s w).2.2,
        commitsAll b.registry.network w) := by
  have hidentity : b.logging.identity = b.identity := rfl
  rw [receive_none, network_logging, hidentity, pollAll_logging]
  rfl

end Mailbox

theorem visit_eq_skipped_iff {agent time : String} {t : Transport σ} {s : Store} {w : σ} :
    (visit agent t time s w).1 = .skipped ↔ t.canReceive w = false := by
  have hpoll : (poll agent t time s w).1 ≠ .skipped := by
    rw [poll]
    rcases t.fetch w with ⟨e | fetched, w₁⟩
    · exact nofun
    · dsimp only
      rcases t.commit fetched.checkpoint w₁ with ⟨e | _, w₂⟩
      · exact nofun
      · exact nofun
  rw [visit]
  split
  · rename_i hcan
    rw [hcan]
    exact ⟨fun h => absurd h hpoll, nofun⟩
  · exact ⟨fun _ => Bool.eq_false_of_not_eq_true ‹_›, fun _ => rfl⟩

/-- Of things with distinct names, all but one. -/
theorem filter_name_ne {α : Type} {name : α → String} {front back : List α} {a : α}
    (h : ((front ++ a :: back).map name).Pairwise (· < ·)) :
    (front ++ a :: back).filter (fun x => name x != name a) = front ++ back := by
  rw [List.map_append, List.map_cons, List.pairwise_append, List.pairwise_cons] at h
  obtain ⟨-, ⟨hback, -⟩, hfront⟩ := h
  have hkept : ∀ x, name x ≠ name a → (name x != name a) = true := fun x => bne_iff_ne.2
  rw [List.filter_append, List.filter_cons_of_neg (by simp), List.filter_eq_self.2 fun x hx => ?_,
    List.filter_eq_self.2 fun x hx => ?_]
  · exact hkept x (ne_of_gt (hback _ (List.mem_map_of_mem hx)))
  · exact hkept x (ne_of_lt (hfront _ (List.mem_map_of_mem hx) _ List.mem_cons_self))

/-- A receive pass over whatever transports says of each network transport, in the order of names,
what came of it; it skips those that have nothing to receive from. If a fetch fails, the transport
is said to have failed and commits nothing; and if it and those after it are transports of the
program, or these cannot tell the surroundings before and after the failure apart, then the
others say, store and commit the same as if it had never been registered. -/
theorem failed_fetch_is_isolated (b : Mailbox Surroundings) (ts : List (Transport Surroundings))
    (times : Nat → String) (s : Store) (w : Surroundings) :
    ∃ receipt s' w' commits,
      (b.equipped ts).receive none times s w = (.ok receipt, s', w') ∧
      (b.equipped ts).logging.receive none times s (w, []) = (.ok receipt, s', w', commits) ∧
      receipt.transports.map Prod.fst = (b.equipped ts).registry.network.map (·.name) ∧
      (receipt.transports.map Prod.fst).Pairwise (· < ·) ∧
      ∀ front t back, (b.equipped ts).registry.network = front ++ t :: back →
        ∃ x, (t.name, x) ∈ receipt.transports ∧
          (x = .skipped ↔ t.canReceive (pullAll times front w).2 = false) ∧
          ∀ e w₁, t.canReceive (pullAll times front w).2 = true →
            t.fetch (pullAll times front w).2 = (.error e, w₁) →
            x = .failed e.message ∧ t.name ∉ commits.map Prod.fst ∧
              ((∀ u ∈ t :: back, u.IsOfProgram) ∨ Indistinct back (pullAll times front w).2 w₁ →
                ∀ times', ∃ receipt' s'' w'',
                  (b.equipped (ts.filter (·.name != t.name))).logging.receive none times' s
                    (w, []) = (.ok receipt', s'', w'', commits) ∧
                  receipt'.transports = receipt.transports.filter (·.1 != t.name) ∧
                  s''.messages.map MessageRow.untimed = s'.messages.map MessageRow.untimed) := by
  have hordered : ((b.equipped ts).registry.network.map (·.name)).Pairwise (· < ·) :=
    Registry.pairwise_names (Registry.ordered_foldl_register Registry.ordered_empty ts) .all
  refine ⟨_, _, _, _, Mailbox.receive_none .., Mailbox.receive_none_logging .., names_pollAll ..,
    ?_, fun front t back hnetwork => ?_⟩
  · rw [names_pollAll]
    exact hordered
  · have hwithout :
        (b.equipped (ts.filter (·.name != t.name))).registry.network = front ++ back := by
      rw [Mailbox.network_equipped_without, hnetwork]
      rw [hnetwork] at hordered
      exact filter_name_ne hordered
    rw [hnetwork] at hordered ⊢
    -- all others have other names, so none of them is left out with it
    have hnames : ∀ u ∈ front ++ back, u.name ≠ t.name := by
      intro u hu heq
      rw [← filter_name_ne hordered] at hu
      exact bne_iff_ne.1 (List.mem_filter.1 hu).2 heq
    refine ⟨_, mem_pollAll .., visit_eq_skipped_iff, fun e w₁ hcan hfetch =>
      ⟨?_, not_mem_commitsAll hfetch hnames, ?_⟩⟩
    · rw [visit_of_fetch_error _ _ _ hcan hfetch]
    · intro hothers times'
      have hback : Indistinct back (pullAll times front w).2 w₁ := by
        refine hothers.elim (fun hprogram => ?_) id
        refine indistinct_of_fetch_error hprogram (fun u hu => ?_) hfetch
        exact (hnames u (List.mem_append_right _ hu)).symm
      obtain ⟨before, after, hbefore, hafter, hall, hrest, hrows, hcommits⟩ :=
        pollAll_without hcan hfetch hback b.identity.agentId times' s
      have hpass := Mailbox.receive_none_logging (b.equipped (ts.filter (·.name != t.name)))
        times' s w
      rw [hwithout, ← hcommits] at hpass
      refine ⟨_, _, _, hpass, ?_, hrows.symm⟩
      -- the entries of the receipt have the names of the transports, in the same order
      have hentries : ((before ++ (t.name, PollResult.failed e.message) :: after).map
          Prod.fst).Pairwise (· < ·) := by
        rw [← hall, names_pollAll]
        exact hordered
      show (pollAll b.identity.agentId _ _ _ _).1 = (pollAll b.identity.agentId _ _ _ _).1.filter _
      rw [hall, hrest]
      exact (filter_name_ne hentries).symm

/-! ### A room that does not answer -/

/-- A room whose homeserver and token stand in a file. -/
def silentRoom : MatrixSettings := ⟨some "!hall:h", "/token", "/cursor"⟩

/-- Two channels, and a room between them in the order of names. -/
def channelsAndRoom : List (Transport Surroundings) :=
  [stream (.plain "wire"), matrix silentRoom, localTransport Surroundings, stream (.plain "cable")]

/-- The same line has come in on both channels, and nobody answers on the network. -/
def lineOnBoth : Surroundings :=
  let line := ["AIMAIL:1|m1|a|b|request|normal|none|aGk="]
  let w := (Surroundings.bare.setChannel "cable" ⟨line, [], 0⟩).setChannel "wire" ⟨line, [], 0⟩
  { w with tree := ⟨[(["token"], .file ⟨.bytes (Text.encodeUtf8
      "\x7b\"homeserver\":\"http://h\",\"accessToken\":\"t\"\x7d"), 0⟩)]⟩ }

/-- A mailbox without transports. -/
def quietMailbox : Mailbox Surroundings := ⟨⟨"b", none, none⟩, .empty, .all, none⟩

/-- What the room is said to have failed with. -/
def silence : TransportFault :=
  .network ("error sending request for url " ++
    "(http://h/_matrix/client/v3/rooms/!hall:h/messages?dir=b&limit=50)")

theorem failed_fetch_is_isolated_silentRoom :
    ∃ receipt s' w' commits receipt' s'' w'',
      (quietMailbox.equipped channelsAndRoom).logging.receive none
        (fun _ => "2025-01-01T00:00:00.000Z") .empty (lineOnBoth, []) =
          (.ok receipt, s', w', commits) ∧
      receipt.transports = [("cable", .polled 1 1), ("matrix", .failed silence.message),
        ("wire", .polled 1 0)] ∧
      (quietMailbox.equipped (channelsAndRoom.filter (·.name != "matrix"))).logging.receive none
        (fun _ => "2025-01-02T00:00:00.000Z") .empty (lineOnBoth, []) =
          (.ok receipt', s'', w'', commits) ∧
      receipt'.transports = [("cable", .polled 1 1), ("wire", .polled 1 0)] ∧
      s''.messages.map MessageRow.untimed = s'.messages.map MessageRow.untimed := by
  obtain ⟨receipt, s', w', commits, hpass, hlogged, -, -, hvisits⟩ := failed_fetch_is_isolated
    quietMailbox channelsAndRoom (fun _ => "2025-01-01T00:00:00.000Z") .empty lineOnBoth
  have hnetwork : (quietMailbox.equipped channelsAndRoom).registry.network =
      [stream (.plain "cable")] ++ matrix silentRoom :: [stream (.plain "wire")] := rfl
  obtain ⟨x, -, -, hfailed⟩ := hvisits _ _ _ hnetwork
  obtain ⟨-, -, hwithout⟩ := hfailed silence _ (by decide +kernel)
    (Prod.ext (by decide +kernel) rfl)
  have hprogram : ∀ u ∈ [matrix silentRoom, stream (.plain "wire")], u.IsOfProgram :=
    List.forall_mem_cons.2 ⟨.matrix _, List.forall_mem_singleton.2 (.stream _)⟩
  obtain ⟨receipt', s'', w'', hpass', htransports, hrows⟩ :=
    hwithout (.inl hprogram) fun _ => "2025-01-02T00:00:00.000Z"
  have hreceipt : (Except.ok receipt : Except Error Receipt) = .ok ⟨[("cable", .polled 1 1),
      ("matrix", .failed silence.message), ("wire", .polled 1 0)]⟩ :=
    (congrArg Prod.fst hpass).symm.trans (by decide +kernel)
  obtain rfl := Except.ok.inj hreceipt
  exact ⟨_, s', w', commits, receipt', s'', w'', hlogged, rfl, hpass', htransports, hrows⟩

end Mailroom
