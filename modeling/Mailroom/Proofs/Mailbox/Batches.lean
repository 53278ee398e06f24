/-
Receiving does not depend on how the lines are cut.

Lines reach an agent in batches, and between the batches the mailbox receives. A fetch may
fail, and then nothing comes in; a commit may fail, and then the lines that came in are fetched
once more. The lines fetched so far are always a beginning of all of them, and what the store
has gained is the first envelope of each new id among these. So where the last pass fetches, it
is the first envelope of each new id among all lines, whatever happened before.

* `Transport.Serves` — a transport serves lines from the last committed position;
* `Round`, `receiveRounds` — batches and passes;
* `watch_eq_receiveRounds` — a watch is made of such rounds;
* `Reached` — how far the rounds have come, kept by every round;
* `cuts_do_not_matter` — two courses over the same lines.
-/
import Mailroom.Proofs.Mailbox.FirstEnvelopes
import Mailroom.Proofs.Transport.Stream

namespace Mailroom

variable {σ τ : Type}

/-! ### Transports that serve lines -/

/-- Where a transport has its lines and the position that was committed last. -/
structure Outlet (σ : Type) where
  lines : σ → List String
  offset : σ → Nat

namespace Transport

/-- What a transport has to do for an outlet. When it fetches, it gives the envelopes in the
lines from the committed position on, and a checkpoint that stands for the end of the lines; it
may fail to fetch and it may fail to commit, whenever it likes. -/
structure Serves (t : Transport σ) (o : Outlet σ) : Prop where
  fetch : ∀ {w w' : σ} {result}, t.fetch w = (result, w') →
    o.lines w' = o.lines w ∧ o.offset w' = o.offset w
  envelopes : ∀ {w w' : σ} {fetched}, t.fetch w = (.ok fetched, w') →
    fetched.envelopes = ((o.lines w).drop (o.offset w)).filterMap Envelope.decode?
  commit : ∀ {w w₁ w₂ : σ} {fetched result}, t.fetch w = (.ok fetched, w₁) →
    t.commit fetched.checkpoint w₁ = (result, w₂) →
      o.lines w₂ = o.lines w₁ ∧
        (o.offset w₂ = (o.lines w₁).length ∨ result ≠ .ok () ∧ o.offset w₂ = o.offset w₁)

/-- Whether a transport that is visited fetches. -/
def Fetches (t : Transport σ) (w : σ) : Prop :=
  t.canReceive w = true ∧ ∃ fetched w', t.fetch w = (.ok fetched, w')

variable {t : Transport σ} {o : Outlet σ} {w : σ}

theorem Serves.pull (h : t.Serves o) (hfetches : t.Fetches w) :
    (t.pull w).1 = ((o.lines w).drop (o.offset w)).filterMap Envelope.decode? ∧
      o.lines (t.pull w).2 = o.lines w ∧
      (o.offset (t.pull w).2 = (o.lines w).length ∨ o.offset (t.pull w).2 = o.offset w) := by
  obtain ⟨hcan, fetched, w₁, hfetch⟩ := hfetches
  obtain ⟨hlines, hoffset⟩ := h.fetch hfetch
  obtain ⟨hlines', hoffset'⟩ := h.commit hfetch rfl
  rw [Transport.pull, if_pos hcan, hfetch]
  refine ⟨h.envelopes hfetch, hlines'.trans hlines, ?_⟩
  rw [← hlines, ← hoffset]
  exact hoffset'.imp_right And.right

theorem Serves.pull_of_not_fetches (h : t.Serves o) (hfetches : ¬ t.Fetches w) :
    (t.pull w).1 = [] ∧ o.lines (t.pull w).2 = o.lines w ∧
      o.offset (t.pull w).2 = o.offset w := by
  rw [Transport.pull]
  split
  · rename_i hcan
    rcases hfetch : t.fetch w with ⟨_ | fetched, w₁⟩
    · exact ⟨rfl, h.fetch hfetch⟩
    · exact absurd ⟨hcan, fetched, w₁, hfetch⟩ hfetches
  · exact ⟨rfl, rfl, rfl⟩

end Transport

/-- Where a channel has its lines and its position. -/
def StreamSettings.outlet (s : StreamSettings) : Outlet Surroundings := ⟨s.lines, s.offset⟩

/-- A channel serves its lines, whichever of its operations fail. -/
theorem serves_stream (s : StreamSettings) : (stream s).Serves s.outlet where
  fetch := by
    intro w w' result h
    obtain ⟨-, rfl⟩ | ⟨-, rfl⟩ := orFault_cases h
    · exact ⟨rfl, rfl⟩
    · exact ⟨rfl, rfl⟩
  envelopes := by
    intro w w' fetched h
    obtain ⟨hok, -⟩ | ⟨⟨e, herror⟩, -⟩ := orFault_cases h
    · obtain rfl := Except.ok.inj hok
      rfl
    · exact absurd herror nofun
  commit := by
    intro w w₁ w₂ fetched result hfetch hcommit
    obtain ⟨hok, hsame⟩ | ⟨⟨e, herror⟩, -⟩ := orFault_cases hfetch
    · obtain rfl := Except.ok.inj hok
      obtain rfl : w₁ = w := hsame
      obtain ⟨-, hmoved⟩ | ⟨⟨e, rfl⟩, rfl⟩ := orFault_cases hcommit
      · have hmoved : w₂ = s.commit (.cursor (toString (s.lines w₁).length)) w₁ := hmoved
        rw [hmoved]
        exact ⟨s.lines_commit w₁ _, .inl (s.offset_commit w₁ _)⟩
      · exact ⟨rfl, .inr ⟨nofun, rfl⟩⟩
    · exact absurd herror nofun

/-! ### Rounds -/

/-- Some lines arrive, and then a mailbox receives. -/
structure Round (σ : Type) where
  mailbox : Mailbox σ
  selector : Option String
  batch : List String
  pass : Pass σ

namespace Round

/-- Store and surroundings after a round. -/
def receive (x : Round σ) (p : Store × σ) : Store × σ :=
  (x.mailbox.receive x.selector x.pass.times p.1 (x.pass.before p.2)).2

/-- Whether the pass of a round fetches. -/
def Fetches (x : Round σ) (p : Store × σ) : Prop :=
  ∀ t ∈ x.mailbox.visited x.selector, t.Fetches (x.pass.before p.2)

/-- A round of an agent on an outlet: its lines come to the end of those that are there, and its
pass goes over one transport, which serves the outlet. -/
structure On (x : Round σ) (o : Outlet σ) (agent : String) : Prop where
  agent : x.mailbox.identity.agentId = agent
  serves : ∃ t, x.mailbox.visited x.selector = [t] ∧ t.Serves o
  lines : ∀ w, o.lines (x.pass.before w) = o.lines w ++ x.batch
  offset : ∀ w, o.offset (x.pass.before w) = o.offset w

end Round

/-- Store and surroundings after several rounds. -/
def receiveRounds (xs : List (Round σ)) (p : Store × σ) : Store × σ :=
  xs.foldl (fun p x => x.receive p) p

/-- The passes of a watch are rounds, whatever lines arrive before them. -/
theorem watch_eq_receiveRounds {b : Mailbox σ} {selector : Option String} {target : Selector}
    (hselector : Mailbox.receiveSelector selector = .ok target) (batch : Pass σ → List String)
    (passes : List (Pass σ)) (s : Store) (w : σ) :
    (b.watch selector passes s w).2.2 =
      receiveRounds (passes.map fun p => ⟨b, selector, batch p, p⟩) (s, w) := by
  induction passes generalizing s w with
  | nil => rfl
  | cons p passes ih =>
    have hround : ∃ receipt, b.receive selector p.times s (p.before w) =
        (.ok receipt, Round.receive ⟨b, selector, batch p, p⟩ (s, w)) := by
      rw [Round.receive, Mailbox.receive, hselector]
      exact ⟨_, rfl⟩
    obtain ⟨receipt, hround⟩ := hround
    rw [Mailbox.watch, hround]
    exact ih _ _

/-- Rounds of an agent on an outlet, in which these lines arrive after the committed position and
the last of which fetches. -/
structure Course (o : Outlet σ) (agent : String) (lines : List String) (s : Store) (w : σ)
    (xs : List (Round σ)) : Prop where
  on : ∀ x ∈ xs, x.On o agent
  within : o.offset w ≤ (o.lines w).length
  all : (o.lines w).drop (o.offset w) ++ xs.flatMap Round.batch = lines
  last : ∃ init x, xs = init ++ [x] ∧ x.Fetches (receiveRounds init (s, w))

/-! ### How far the rounds have come -/

/-- The lines from `base` up to `upTo` have been fetched at least once, and the store has gained
the first envelopes among them; the committed position lies somewhere in between. -/
structure Reached (o : Outlet σ) (agent : String) (s : Store) (base upTo : Nat) (p : Store × σ) :
    Prop where
  base_le : base ≤ o.offset p.2
  offset_le : o.offset p.2 ≤ upTo
  upTo_le : upTo ≤ (o.lines p.2).length
  gathered : s.Gathers (meantFor agent (((o.lines p.2).take upTo).drop base)) p.1

namespace Reached

variable {o : Outlet σ} {agent : String} {s : Store} {base upTo : Nat} {p : Store × σ}

theorem start (agent : String) (s : Store) {w : σ} (hwithin : o.offset w ≤ (o.lines w).length) :
    Reached o agent s (o.offset w) (o.offset w) (s, w) where
  base_le := Nat.le_refl _
  offset_le := Nat.le_refl _
  upTo_le := hwithin
  gathered := by
    rw [List.drop_take, Nat.sub_self, List.take_zero]
    exact .nothing s

/-- What was fetched before is held, so only the lines that were not fetched yet count. -/
theorem fetch (h : Reached o agent s base upTo p) (time : String) :
    s.Gathers (meantFor agent ((o.lines p.2).drop base))
      (p.1.takeIn ((meantFor agent ((o.lines p.2).drop (o.offset p.2))).map (·.arrived time))) := by
  have hlength : upTo ≤ (o.lines p.2).length := h.upTo_le
  have hsplit : ∀ n, n ≤ upTo → (o.lines p.2).drop n =
      ((o.lines p.2).take upTo).drop n ++ (o.lines p.2).drop upTo := by
    intro n hn
    have hn' : n ≤ ((o.lines p.2).take upTo).length := by
      rw [List.length_take, Nat.min_eq_left hlength]
      exact hn
    rw [← List.drop_append_of_le_length hn', List.take_append_drop]
  have hagain : ∀ m ∈ (meantFor agent (((o.lines p.2).take upTo).drop (o.offset p.2))).map
      (·.arrived time), m.id ∈ p.1.ids := by
    intro m hm
    obtain ⟨e, he, rfl⟩ := List.mem_map.1 hm
    have hsub := (List.drop_sublist_drop_left ((o.lines p.2).take upTo) h.base_le).filterMap
      fun line => (Envelope.decode? line).filter (·.isFor agent)
    exact h.gathered.mem_ids.2 (.inr (List.mem_map_of_mem (hsub.subset he)))
  rw [hsplit _ h.offset_le, hsplit _ (Nat.le_trans h.base_le h.offset_le), meantFor_append,
    meantFor_append, List.map_append, Store.takeIn_append, Store.takeIn_of_held hagain]
  exact h.gathered.takeIn _ time

theorem arrive (h : Reached o agent s base upTo p) {w : σ} {batch : List String}
    (hlines : o.lines w = o.lines p.2 ++ batch) (hoffset : o.offset w = o.offset p.2) :
    Reached o agent s base upTo (p.1, w) where
  base_le := hoffset ▸ h.base_le
  offset_le := hoffset ▸ h.offset_le
  upTo_le := by
    rw [hlines, List.length_append]
    exact Nat.le_add_right_of_le h.upTo_le
  gathered := by
    rw [hlines, List.take_append_of_le_length h.upTo_le]
    exact h.gathered

theorem pull (h : Reached o agent s base upTo p) {t : Transport σ} (ht : t.Serves o)
    (time : String) : ∃ upTo', Reached o agent s base upTo'
        (p.1.takeIn (arrivals agent ((t.pull p.2).1.map (·, time))), (t.pull p.2).2) ∧
      (t.Fetches p.2 → upTo' = (o.lines p.2).length) := by
  have hin := Nat.le_trans h.offset_le h.upTo_le
  by_cases hfetches : t.Fetches p.2
  · obtain ⟨henvelopes, hlines, hoffset⟩ := ht.pull hfetches
    refine ⟨(o.lines p.2).length, ⟨?_, ?_, ?_, ?_⟩, fun _ => rfl⟩
    · rcases hoffset with hoffset | hoffset
      · exact hoffset ▸ Nat.le_trans h.base_le hin
      · exact hoffset ▸ h.base_le
    · rcases hoffset with hoffset | hoffset
      · exact Nat.le_of_eq hoffset
      · exact hoffset ▸ hin
    · exact Nat.le_of_eq (congrArg List.length hlines.symm)
    · rw [hlines, List.take_length, henvelopes, arrivals_decoded]
      exact h.fetch time
  · obtain ⟨henvelopes, hlines, hoffset⟩ := ht.pull_of_not_fetches hfetches
    refine ⟨upTo, ?_, fun hf => absurd hf hfetches⟩
    rw [henvelopes]
    exact h.arrive (hlines.trans (List.append_nil _).symm) hoffset

end Reached

section

variable {o : Outlet σ} {agent : String} {s : Store} {base upTo : Nat} {p : Store × σ}
  {x : Round σ} {xs : List (Round σ)}

theorem Round.receive_eq {t : Transport σ} (ht : x.mailbox.visited x.selector = [t])
    (p : Store × σ) :
    x.receive p = (p.1.takeIn (arrivals x.mailbox.identity.agentId
        ((t.pull (x.pass.before p.2)).1.map (·, x.pass.times 0))),
      (t.pull (x.pass.before p.2)).2) := by
  rw [Round.receive, Mailbox.receive_eq, ht]
  show (p.1.takeIn (arrivals _ (_ ++ [])), _) = _
  rw [List.append_nil]
  rfl

theorem Round.On.lines_receive (hx : x.On o agent) (p : Store × σ) :
    o.lines (x.receive p).2 = o.lines p.2 ++ x.batch := by
  obtain ⟨t, ht, hserves⟩ := hx.serves
  rw [Round.receive_eq ht, ← hx.lines]
  by_cases hfetches : t.Fetches (x.pass.before p.2)
  · exact (hserves.pull hfetches).2.1
  · exact (hserves.pull_of_not_fetches hfetches).2.1

theorem Reached.receive (h : Reached o agent s base upTo p) (hx : x.On o agent) :
    ∃ upTo', Reached o agent s base upTo' (x.receive p) ∧
      (x.Fetches p → upTo' = (o.lines (x.receive p).2).length) := by
  obtain ⟨t, ht, hserves⟩ := hx.serves
  obtain ⟨upTo', hreached, hall⟩ :=
    (h.arrive (hx.lines p.2) (hx.offset p.2)).pull hserves (x.pass.times 0)
  rw [hx.lines_receive, Round.receive_eq ht, hx.agent]
  refine ⟨upTo', hreached, fun hfetches => ?_⟩
  rw [← hx.lines]
  exact hall (hfetches t (ht ▸ List.mem_singleton_self t))

theorem Reached.receiveRounds (h : Reached o agent s base upTo p) (hxs : ∀ x ∈ xs, x.On o agent) :
    o.lines (receiveRounds xs p).2 = o.lines p.2 ++ xs.flatMap Round.batch ∧
      ∃ upTo', Reached o agent s base upTo' (receiveRounds xs p) := by
  induction xs generalizing upTo p with
  | nil => exact ⟨(List.append_nil _).symm, upTo, h⟩
  | cons x xs ih =>
    obtain ⟨hx, hxs⟩ := List.forall_mem_cons.1 hxs
    obtain ⟨upTo', hreached, -⟩ := h.receive hx
    obtain ⟨hlines, hrest⟩ := ih hreached hxs
    refine ⟨?_, hrest⟩
    show o.lines (Mailroom.receiveRounds xs (x.receive p)).2 = _
    rw [hlines, hx.lines_receive, List.append_assoc, List.flatMap_cons]

/-- When the last pass has fetched, the store has gained the first envelopes among all lines. -/
theorem Course.gathers {lines : List String} {w : σ} (h : Course o agent lines s w xs) :
    s.Gathers (meantFor agent lines) (Mailroom.receiveRounds xs (s, w)).1 := by
  obtain ⟨init, x, rfl, hfetches⟩ := h.last
  have hinit : ∀ y ∈ init, y.On o agent := fun y hy => h.on y (List.mem_append_left _ hy)
  have hx := h.on x (List.mem_append_right _ (List.mem_singleton_self x))
  obtain ⟨hlines, upTo, hreached⟩ := (Reached.start agent s h.within).receiveRounds hinit
  obtain ⟨upTo', hreached', hall⟩ := hreached.receive hx
  have hend : receiveRounds (init ++ [x]) (s, w) = x.receive (receiveRounds init (s, w)) :=
    List.foldl_append ..
  have hserved : (o.lines (x.receive (receiveRounds init (s, w))).2).drop (o.offset w) = lines := by
    rw [hx.lines_receive, hlines, List.append_assoc, List.drop_append_of_le_length h.within,
      ← h.all, List.flatMap_append, List.flatMap_singleton]
  have hgathered := hreached'.gathered
  rw [hall hfetches, List.take_length, hserved] at hgathered
  rw [hend]
  exact hgathered

end

/-! ### Two courses over the same lines -/

/-- Two courses begin with the same store, and the same lines come to the same agent, through any
transports, in any batches and with any failures. They end with the same rows but for the times,
and these are the first envelopes of the new ids. -/
theorem cuts_do_not_matter {o : Outlet σ} {o' : Outlet τ} {agent : String} {lines : List String}
    {s : Store} {w : σ} {w' : τ} {xs : List (Round σ)} {xs' : List (Round τ)}
    (h : Course o agent lines s w xs) (h' : Course o' agent lines s w' xs') :
    s.CameIn agent lines (receiveRounds xs (s, w)).1 ∧
      s.CameIn agent lines (receiveRounds xs' (s, w')).1 ∧
      (receiveRounds xs (s, w)).1.messages.map MessageRow.untimed =
        (receiveRounds xs' (s, w')).1.messages.map MessageRow.untimed :=
  ⟨h.gathers.cameIn, h'.gathers.cameIn, h.gathers.untimed.trans h'.gathers.untimed.symm⟩

/-- A round of the agent `b` on a channel of its own, on which these operations fail. -/
def wireRound (fetchFault commitFault : Option TransportFault) (time : String)
    (batch : List String) : Round Surroundings where
  mailbox := ⟨⟨"b", none, none⟩, .register .empty (stream { StreamSettings.plain "wire" with
    fetchFault := fetchFault, commitFault := commitFault }), .all, none⟩
  selector := none
  batch := batch
  pass := ⟨(StreamSettings.plain "wire").feed batch, fun _ => time⟩

theorem on_wireRound (fetchFault commitFault : Option TransportFault) (time : String)
    (batch : List String) : (wireRound fetchFault commitFault time batch).On
      (StreamSettings.plain "wire").outlet "b" where
  agent := rfl
  serves := ⟨_, rfl, serves_stream { StreamSettings.plain "wire" with
    fetchFault := fetchFault, commitFault := commitFault }⟩
  lines := fun w => (StreamSettings.plain "wire").lines_feed w batch
  offset := fun w => (StreamSettings.plain "wire").offset_feed w batch

theorem fetches_wireRound (commitFault : Option TransportFault) (time : String)
    (batch : List String) (p : Store × Surroundings) :
    (wireRound none commitFault time batch).Fetches p := by
  intro t ht
  obtain rfl := List.mem_singleton.1 ht
  exact ⟨rfl, _, _, rfl⟩

/-- Three envelopes of one id, the first of which is for another agent. -/
def threeLines : List String :=
  [Envelope.encode ⟨"m1", "a", "c", .request, .normal, noConvoy, "to c"⟩,
    Envelope.encode ⟨"m1", "a", "b", .request, .normal, noConvoy, "to b"⟩,
    Envelope.encode ⟨"m1", "a", everyone, .request, .normal, noConvoy, "to all"⟩]

/-- They arrive together. -/
def together : List (Round Surroundings) :=
  [wireRound none none "2025-01-01T00:00:00.000Z" threeLines]

/-- They arrive one after another; the second pass does not commit and the third does not fetch. -/
def oneByOne : List (Round Surroundings) :=
  [wireRound none none "2025-01-02T00:00:00.000Z" (threeLines.take 1),
    wireRound none (some .timeout) "2025-01-03T00:00:00.000Z" ((threeLines.drop 1).take 1),
    wireRound (some .timeout) none "2025-01-04T00:00:00.000Z" (threeLines.drop 2),
    wireRound none none "2025-01-05T00:00:00.000Z" []]

theorem course_together : Course (StreamSettings.plain "wire").outlet "b" threeLines .empty .bare
    together where
  on := by
    intro x hx
    obtain rfl := List.mem_singleton.1 hx
    exact on_wireRound ..
  within := Nat.zero_le _
  all := rfl
  last := ⟨[], _, rfl, fetches_wireRound none _ _ _⟩

theorem course_oneByOne : Course (StreamSettings.plain "wire").outlet "b" threeLines .empty .bare
    oneByOne where
  on := by
    simp only [oneByOne, List.forall_mem_cons]
    exact ⟨on_wireRound .., on_wireRound .., on_wireRound .., on_wireRound ..,
      List.forall_mem_nil _⟩
  within := Nat.zero_le _
  all := rfl
  last := ⟨oneByOne.dropLast, _, rfl, fetches_wireRound none _ _ _⟩

/-- Both times the second envelope comes in, and only the times differ. -/
theorem cuts_do_not_matter_threeLines :
    (receiveRounds together (.empty, .bare)).1.messages.map (fun r => (r.payload, r.createdAt)) =
        [("to b", "2025-01-01T00:00:00.000Z")] ∧
      (receiveRounds oneByOne (.empty, .bare)).1.messages.map (fun r => (r.payload, r.createdAt)) =
        [("to b", "2025-01-03T00:00:00.000Z")] ∧
      (receiveRounds together (.empty, .bare)).1.messages.map MessageRow.untimed =
        (receiveRounds oneByOne (.empty, .bare)).1.messages.map MessageRow.untimed :=
  ⟨by decide +kernel, by decide +kernel, (cuts_do_not_matter course_together course_oneByOne).2.2⟩

end Mailroom
