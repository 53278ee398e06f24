/-
What a relay reaches.

A registry holds for every name the transport that was registered last under it. A selector means
some of these, and a relay takes them one after another in the order of their names. Each is tried
by itself: it gets the line if it is available at its turn, and what comes of it is its own result.
How the others come out is not asked; they count only by what they have done to the surroundings
before, and not at all if the transport does not look at that.

* `StandsFor` — the transport that was registered last under its name;
* `mem_registered_iff`, `mem_resolve_iff` — what a registry holds, and what a selector means;
* `Transport.failure`, `Transport.afterTurn`, `relay_eq` — the one result of a transport, and what
  it leaves;
* `relayAll_append`, `relayAll_at` — a relay, cut before and behind a transport;
* `Transport.outcomes` — a transport whose sends come out in another way;
* `Transport.LooksAt`, `Transport.Leaves` — what a transport depends on, and what it lets be;
* `relayAll_eq_map` — transports that leave alone what those behind them look at;
* `relay_reaches_what_is_meant` — the relay of an envelope;
* `exists_looksAt_of_isOfProgram`, `relay_configured` — the transports of the program leave each
  other alone.
-/
import Mailroom.Proofs.Transport.RoomExchanges
import Mathlib.Data.List.Induction
import Mathlib.Data.List.Nodup

namespace Mailroom

variable {σ : Type}

/-! ### Who stands for a name -/

/-- A transport was registered, and no other one of its name after it. -/
def StandsFor (ts : List (Transport σ)) (t : Transport σ) : Prop :=
  ∃ before after, ts = before ++ t :: after ∧ ∀ u ∈ after, u.name ≠ t.name

theorem standsFor_concat {ts : List (Transport σ)} {t u : Transport σ} :
    StandsFor (ts ++ [t]) u ↔ u = t ∨ (StandsFor ts u ∧ u.name ≠ t.name) := by
  constructor
  · rintro ⟨before, after, heq, hafter⟩
    rcases List.eq_nil_or_concat after with rfl | ⟨after, last, rfl⟩
    · exact .inl (List.singleton_inj.1 (List.append_inj' heq rfl).2).symm
    · rw [List.concat_eq_append, ← List.cons_append, ← List.append_assoc] at heq
      obtain ⟨rfl, hlast⟩ := List.append_inj' heq rfl
      obtain rfl := List.singleton_inj.1 hlast
      refine .inr ⟨⟨before, after, rfl, fun v hv => hafter v (by simp [hv])⟩, ?_⟩
      exact (hafter t (by simp)).symm
  · rintro (rfl | ⟨⟨before, after, rfl, hafter⟩, hne⟩)
    · exact ⟨ts, [], rfl, nofun⟩
    · refine ⟨before, after ++ [t], by simp, fun v hv => ?_⟩
      rcases List.mem_append.1 hv with hv | hv
      · exact hafter v hv
      · rw [List.mem_singleton.1 hv]
        exact hne.symm

theorem mem_insertByName_iff {t u : Transport σ} {us : List (Transport σ)}
    (h : us.Pairwise fun u v => u.name < v.name) :
    u ∈ insertByName t us ↔ u = t ∨ (u ∈ us ∧ u.name ≠ t.name) := by
  induction us with
  | nil => simp [insertByName]
  | cons v vs ih =>
    obtain ⟨hv, hvs⟩ := List.pairwise_cons.1 h
    -- what stands behind a name has another name
    have hbehind : ∀ u ∈ vs, u.name ≠ v.name := fun u hu => (ne_of_lt (hv u hu)).symm
    rw [insertByName]
    split
    · rename_i hlt
      have hall : ∀ u ∈ v :: vs, u.name ≠ t.name := by
        rw [List.forall_mem_cons]
        exact ⟨(ne_of_lt hlt).symm, fun u hu => (ne_of_lt (lt_trans hlt (hv u hu))).symm⟩
      rw [List.mem_cons]
      exact or_congr_right (iff_self_and.2 (hall u))
    · split
      · rename_i heq
        rw [List.mem_cons, List.mem_cons, heq]
        refine or_congr_right ⟨fun hu => ⟨.inr hu, hbehind u hu⟩, ?_⟩
        rintro ⟨rfl | hu, hne⟩
        · exact absurd rfl hne
        · exact hu
      · rename_i hne
        rw [List.mem_cons, ih hvs, List.mem_cons, or_and_right, or_left_comm]
        exact or_congr_right (or_congr_left (iff_self_and.2 fun huv => huv ▸ Ne.symm hne))

/-- The registry after some transports have been registered. -/
def Registry.registered (ts : List (Transport σ)) : Registry σ := ts.foldl .register .empty

theorem Registry.ordered_registered (ts : List (Transport σ)) : (registered ts).Ordered :=
  ordered_foldl_register ordered_empty ts

theorem mem_registered_iff {ts : List (Transport σ)} {t : Transport σ} :
    t ∈ (Registry.registered ts).transports ↔ StandsFor ts t := by
  induction ts using List.reverseRecOn with
  | nil => exact ⟨nofun, fun ⟨before, after, heq, _⟩ => absurd heq (by simp)⟩
  | append_singleton ts u ih =>
    rw [standsFor_concat, ← ih, ← mem_insertByName_iff (Registry.ordered_registered ts)]
    show _ ∈ ((ts ++ [u]).foldl Registry.register .empty).transports ↔ _
    rw [List.foldl_concat]
    rfl

/-- The transports that a selector means, among those that stand for a name. -/
def Selector.Means : Selector → Transport σ → Prop
  | .here, _ => False
  | .all, t => t.isNetwork = true
  | single, t => t.name = single.name

theorem Registry.mem_toList_get?_iff {r : Registry σ} (h : r.Ordered) {name : String}
    {t : Transport σ} : t ∈ (r.get? name).toList ↔ t ∈ r.transports ∧ t.name = name := by
  rw [Option.mem_toList, get?]
  constructor
  · intro hfind
    exact ⟨List.mem_of_find?_eq_some hfind, by simpa using List.find?_some hfind⟩
  · rintro ⟨hmem, rfl⟩
    obtain ⟨u, hu⟩ : ∃ u, r.transports.find? (·.name == t.name) = some u :=
      Option.isSome_iff_exists.1 (List.find?_isSome.2 ⟨t, hmem, beq_self_eq_true _⟩)
    -- no name comes twice, so this is the one that was found
    have hname : u.name = t.name := by simpa using List.find?_some hu
    have hnodup : (r.transports.map (·.name)).Nodup :=
      List.pairwise_map.2 (h.imp fun hlt => ne_of_lt hlt)
    rw [hu, List.inj_on_of_nodup_map hnodup (List.mem_of_find?_eq_some hu) hmem hname]

/-- A selector resolves to the transports that it means. -/
theorem mem_resolve_iff {ts : List (Transport σ)} {x : Selector} {t : Transport σ} :
    t ∈ (Registry.registered ts).resolve x ↔ StandsFor ts t ∧ x.Means t := by
  rw [← mem_registered_iff]
  have hordered := Registry.ordered_registered ts
  cases x with
  | here => exact ⟨nofun, fun h => h.2.elim⟩
  | simplex => exact Registry.mem_toList_get?_iff hordered
  | matrix => exact Registry.mem_toList_get?_iff hordered
  | all => exact List.mem_filter

/-! ### One after another -/

namespace Transport

/-- What is said of a line that did not get through: nothing if it did. -/
def failure (t : Transport σ) (line : String) (w : σ) : Option String :=
  if t.available w then
    match (t.send line w).1 with
    | .ok () => none
    | .error e => some e.message
  else some (t.name ++ " transport not available")

/-- What is there after the turn of a transport: it is sent to once if it is available. -/
def afterTurn (t : Transport σ) (line : String) (w : σ) : σ :=
  if t.available w then (t.send line w).2 else w

theorem relay_eq (t : Transport σ) (line : String) (w : σ) :
    t.relay line w = (⟨t.name, t.failure line w⟩, t.afterTurn line w) := by
  rw [relay, failure, afterTurn]
  split
  · rcases t.send line w with ⟨_ | _, w'⟩
    · rfl
    · rfl
  · rfl

end Transport

theorem relayAll_append (line : String) (us vs : List (Transport σ)) (w : σ) :
    relayAll line (us ++ vs) w =
      ((relayAll line us w).1 ++ (relayAll line vs (relayAll line us w).2).1,
        (relayAll line vs (relayAll line us w).2).2) := by
  induction us generalizing w with
  | nil => rfl
  | cons u us ih => simp only [List.cons_append, relayAll, ih]

theorem givenAll_append (line : String) (us vs : List (Transport σ)) (w : σ) :
    givenAll line (us ++ vs) w =
      givenAll line us w ++ givenAll line vs (relayAll line us w).2 := by
  induction us generalizing w with
  | nil => rfl
  | cons u us ih => simp only [List.cons_append, givenAll, relayAll, ih, List.append_assoc]

theorem transports_relayAll (line : String) (us : List (Transport σ)) (w : σ) :
    (relayAll line us w).1.map (·.transport) = us.map (·.name) := by
  induction us generalizing w with
  | nil => rfl
  | cons u us ih =>
    rw [relayAll, List.map_cons, List.map_cons, ih, Transport.relay_eq]

theorem length_relayAll (line : String) (us : List (Transport σ)) (w : σ) :
    (relayAll line us w).1.length = us.length := by
  simpa using congrArg List.length (transports_relayAll line us w)

/-- What comes of a transport among others, and what it leaves to those behind it. -/
theorem relayAll_at (line : String) (front : List (Transport σ)) (t : Transport σ)
    (back : List (Transport σ)) (w : σ) :
    (relayAll line (front ++ t :: back) w).1[front.length]? =
        some ⟨t.name, t.failure line (relayAll line front w).2⟩ ∧
      (relayAll line (front ++ [t]) w).2 = t.afterTurn line (relayAll line front w).2 := by
  constructor
  · rw [relayAll_append, ← length_relayAll line front w, List.getElem?_append_right (le_refl _),
      Nat.sub_self, relayAll, Transport.relay_eq]
    rfl
  · rw [relayAll_append, relayAll, Transport.relay_eq]
    rfl

/-- The notes of the name of one transport. -/
theorem filter_givenAll (line : String) {front : List (Transport σ)} {t : Transport σ}
    {back : List (Transport σ)}
    (h : ((front ++ t :: back).map (·.name)).Pairwise (· < ·)) (w : σ) :
    (givenAll line (front ++ t :: back) w).filter (·.1 == t.name) =
      if t.available (relayAll line front w).2 then [(t.name, line)] else [] := by
  rw [List.map_append, List.map_cons, List.pairwise_append] at h
  obtain ⟨-, hback, hfront⟩ := h
  -- no other transport has this name
  have hnone : ∀ (us : List (Transport σ)) (v : σ), (∀ u ∈ us, u.name ≠ t.name) →
      (givenAll line us v).filter (·.1 == t.name) = [] := by
    intro us v hus
    refine List.filter_eq_nil_iff.2 fun note hnote hname => ?_
    obtain ⟨u, hu, rfl⟩ := List.mem_map.1 ((givenAll_sublist line us v).subset hnote)
    exact hus u hu (beq_iff_eq.1 hname)
  have hbefore : ∀ u ∈ front, u.name ≠ t.name := fun u hu =>
    ne_of_lt (hfront u.name (List.mem_map_of_mem hu) t.name List.mem_cons_self)
  have hbehind : ∀ u ∈ back, u.name ≠ t.name := fun u hu =>
    ne_of_gt ((List.pairwise_cons.1 hback).1 u.name (List.mem_map_of_mem hu))
  rw [givenAll_append, List.filter_append, hnone front w hbefore, givenAll, List.filter_append,
    hnone back _ hbehind, List.nil_append, List.append_nil]
  split
  · exact List.filter_cons_of_pos (by simp)
  · rfl

/-! ### Each by itself -/

namespace Transport

/-- The transport whose sends come out in another way, though they do the same. -/
def outcomes (t : Transport σ) (result : String → σ → Except TransportFault Unit) : Transport σ :=
  { t with send := fun line w => (result line w, (t.send line w).2) }

/-- What a transport does when it is sent to depends on nothing but what it looks at. -/
structure LooksAt {α : Type} (t : Transport σ) (view : σ → α) : Prop where
  available : ∀ {w w'}, view w = view w' → t.available w = t.available w'
  send : ∀ {w w'} line, view w = view w' → (t.send line w).1 = (t.send line w').1

/-- Sending through a transport changes nothing of what there is to look at. -/
def Leaves {α : Type} (t : Transport σ) (view : σ → α) : Prop :=
  ∀ line w, view (t.send line w).2 = view w

theorem LooksAt.failure_eq {α : Type} {t : Transport σ} {view : σ → α} (h : t.LooksAt view)
    (line : String) {w w' : σ} (hw : view w = view w') : t.failure line w = t.failure line w' := by
  rw [failure, failure, h.available hw, h.send line hw]

end Transport

section

variable (line : String) (result : Transport σ → String → σ → Except TransportFault Unit)

theorem snd_relayAll_outcomes (us : List (Transport σ)) (w : σ) :
    (relayAll line (us.map fun u => u.outcomes (result u)) w).2 = (relayAll line us w).2 := by
  induction us generalizing w with
  | nil => rfl
  | cons u us ih =>
    rw [List.map_cons, relayAll, relayAll, Transport.relay_eq, Transport.relay_eq]
    exact ih _

/-- The result of a transport is the same however the sends of the others come out. -/
theorem relayAll_outcomes (front : List (Transport σ)) (t : Transport σ)
    (back : List (Transport σ)) (w : σ) :
    (relayAll line ((front.map fun u => u.outcomes (result u)) ++
        t :: back.map fun u => u.outcomes (result u)) w).1[front.length]? =
      (relayAll line (front ++ t :: back) w).1[front.length]? := by
  have hat := (relayAll_at line (front.map fun u => u.outcomes (result u)) t
    (back.map fun u => u.outcomes (result u)) w).1
  rw [List.length_map, snd_relayAll_outcomes] at hat
  rw [hat, (relayAll_at line front t back w).1]

end

theorem view_relayAll {α : Type} {view : σ → α} {us : List (Transport σ)}
    (h : ∀ u ∈ us, u.Leaves view) (line : String) (w : σ) :
    view (relayAll line us w).2 = view w := by
  induction us generalizing w with
  | nil => rfl
  | cons u us ih =>
    obtain ⟨hu, hus⟩ := List.forall_mem_cons.1 h
    rw [relayAll, Transport.relay_eq]
    refine (ih hus _).trans ?_
    rw [Transport.afterTurn]
    split
    · exact hu line w
    · rfl

/-- Transports that leave alone what those behind them look at are relayed to as if each of them
were the only one. -/
theorem relayAll_eq_map (line : String) {us : List (Transport σ)}
    (h : ∀ front t back, us = front ++ t :: back →
      ∃ (α : Type) (view : σ → α), t.LooksAt view ∧ ∀ u ∈ front, u.Leaves view) (w : σ) :
    (relayAll line us w).1 = us.map fun t => (t.relay line w).1 := by
  induction us using List.reverseRecOn with
  | nil => rfl
  | append_singleton us t ih =>
    obtain ⟨α, view, ht, hus⟩ := h us t [] rfl
    have hturn := ht.failure_eq line (view_relayAll hus line w)
    rw [relayAll_append, List.map_append, ih]
    · rw [relayAll, Transport.relay_eq, hturn, List.map_singleton, Transport.relay_eq]
      rfl
    · rintro front u back rfl
      exact h front u (back ++ [t]) (by simp)

/-- A relay reaches exactly the transports that the selector means: for each name the one that was
registered last under it, in the order of their names, with one result for each. A transport that
is available at its turn is sent the line of the envelope once, and one that is not is sent
nothing. Its result is what comes of it at its turn; it is the same however the sends of the others
come out, and the same as if there were no others if these leave alone what it looks at. -/
theorem relay_reaches_what_is_meant (ts : List (Transport σ)) (x : Selector) (e : Envelope)
    (w : σ) :
    (∀ t, t ∈ (Registry.registered ts).resolve x ↔ StandsFor ts t ∧ x.Means t) ∧
    (((Registry.registered ts).resolve x).map (·.name)).Pairwise (· < ·) ∧
    ((Registry.registered ts).relay x e w).1.map (·.transport) =
      ((Registry.registered ts).resolve x).map (·.name) ∧
    (∀ note ∈ ((Registry.registered ts).noting.relay x e (w, [])).2.2,
      ∃ t ∈ (Registry.registered ts).resolve x, note = (t.name, e.encode)) ∧
    ∀ front t back, (Registry.registered ts).resolve x = front ++ t :: back →
      ((Registry.registered ts).relay x e w).1[front.length]? =
        some ⟨t.name, t.failure e.encode (relayAll e.encode front w).2⟩ ∧
      (relayAll e.encode (front ++ [t]) w).2 =
        t.afterTurn e.encode (relayAll e.encode front w).2 ∧
      (((Registry.registered ts).noting.relay x e (w, [])).2.2.filter (·.1 == t.name) =
        if t.available (relayAll e.encode front w).2 then [(t.name, e.encode)] else []) ∧
      (∀ result : Transport σ → String → σ → Except TransportFault Unit,
        (relayAll e.encode ((front.map fun u => u.outcomes (result u)) ++
            t :: back.map fun u => u.outcomes (result u)) w).1[front.length]? =
          ((Registry.registered ts).relay x e w).1[front.length]?) ∧
      ∀ (α : Type) (view : σ → α), t.LooksAt view → (∀ u ∈ front, u.Leaves view) →
        ((Registry.registered ts).relay x e w).1[front.length]? =
          some (t.relay e.encode w).1 := by
  have hnames := Registry.pairwise_names (Registry.ordered_registered ts) x
  have hnotes : ((Registry.registered ts).noting.relay x e (w, [])).2.2 =
      givenAll e.encode ((Registry.registered ts).resolve x) w := by
    rw [Registry.relay, resolve_noting, relayAll_noting, List.nil_append]
  refine ⟨fun t => mem_resolve_iff, hnames, transports_relayAll .., fun note hnote => ?_,
    fun front t back hsplit => ?_⟩
  · rw [hnotes] at hnote
    obtain ⟨t, ht, rfl⟩ := List.mem_map.1 ((givenAll_sublist _ _ _).subset hnote)
    exact ⟨t, ht, rfl⟩
  · rw [hnotes, Registry.relay, hsplit]
    rw [hsplit] at hnames
    obtain ⟨hresult, hafter⟩ := relayAll_at e.encode front t back w
    refine ⟨hresult, hafter, filter_givenAll _ hnames w,
      fun result => relayAll_outcomes _ result front t back w, fun α view ht hfront => ?_⟩
    rw [hresult, Transport.relay_eq, ht.failure_eq e.encode (view_relayAll hfront e.encode w)]

/-! ### The transports of the program -/

namespace Surroundings

/-- What a chat program is found by and run with. -/
def forPrograms (w : Surroundings) : Tree × Location × List String :=
  (w.tree, w.folder, w.searchPath)

/-- What an exchange with a room depends on. -/
def forExchanges (w : Surroundings) : Tree × Location × Time.Instant × Nat × List Reply :=
  (w.tree, w.folder, w.clock, w.seed, w.replies)

theorem journal_run (w : Surroundings) (program : String) (arguments : List String) :
    ∃ journal, (w.run program arguments).2 = { w with journal } := by
  unfold run
  dsimp only
  split
  · exact ⟨_, rfl⟩
  · split
    · exact ⟨_, rfl⟩
    · split
      · exact ⟨_, rfl⟩
      · exact ⟨_, rfl⟩

end Surroundings

theorem journal_runChat (program command : String) (w : Surroundings) :
    ∃ journal, (runChat program command w).2 = { w with journal } := by
  obtain ⟨journal, hrun⟩ := w.journal_run program ["-e", command, "-t", "3"]
  refine ⟨journal, ?_⟩
  rw [runChat]
  rcases h : w.run program ["-e", command, "-t", "3"] with ⟨e | exit, w'⟩
  · rw [h] at hrun
    exact hrun
  · rw [h] at hrun
    dsimp only
    split
    · exact hrun
    · exact hrun

theorem journal_simplexSend (s : SimplexSettings) (line : String) (w : Surroundings) :
    ∃ journal, (simplexSend s line w).2 = { w with journal } := by
  unfold simplexSend
  split
  · exact ⟨_, rfl⟩
  · split
    · exact ⟨_, rfl⟩
    · exact journal_runChat ..
    · exact journal_runChat ..
    · rename_i group contact _ _
      obtain ⟨journal, hgroup⟩ := journal_runChat s.program ("#" ++ group ++ " " ++ line) w
      rcases h : runChat s.program ("#" ++ group ++ " " ++ line) w with ⟨_ | _, w'⟩
      · rw [h] at hgroup
        obtain rfl : w' = { w with journal } := hgroup
        exact journal_runChat s.program ("@" ++ contact ++ " " ++ line) { w with journal }
      · rw [h] at hgroup
        exact ⟨journal, hgroup⟩

section

variable {w w' : Surroundings}

theorem findProgram_congr (h : w.forPrograms = w'.forPrograms) (program : String) :
    w.findProgram program = w'.findProgram program := by
  obtain ⟨htree, hrest⟩ := Prod.mk.inj h
  obtain ⟨hfolder, hpath⟩ := Prod.mk.inj hrest
  have hfile : ∀ path, w.isFile path = w'.isFile path := by
    intro path
    rw [Surroundings.isFile, Surroundings.isFile, Surroundings.node?, Surroundings.node?,
      Surroundings.locate, Surroundings.locate, htree, hfolder]
  rw [Surroundings.findProgram, Surroundings.findProgram, hpath, hfile, funext hfile]

theorem firstRunnable_congr (h : w.forPrograms = w'.forPrograms) (fault : FileFault)
    (paths : List String) : w.firstRunnable fault paths = w'.firstRunnable fault paths := by
  obtain ⟨htree, hrest⟩ := Prod.mk.inj h
  obtain ⟨hfolder, -⟩ := Prod.mk.inj hrest
  have hlocate : ∀ path, w.locate path = w'.locate path := by
    intro path
    rw [Surroundings.locate, Surroundings.locate, htree, hfolder]
  induction paths generalizing fault with
  | nil => rfl
  | cons path rest ih => simp only [Surroundings.firstRunnable, hlocate, htree, ih]

theorem fst_run_congr (h : w.forPrograms = w'.forPrograms) (program : String)
    (arguments : List String) : (w.run program arguments).1 = (w'.run program arguments).1 := by
  have hpath : w.searchPath = w'.searchPath := (Prod.mk.inj (Prod.mk.inj h).2).2
  unfold Surroundings.run
  dsimp only
  rw [hpath, firstRunnable_congr h]
  split
  · rfl
  · split
    · rfl
    · split
      · rfl
      · rfl

theorem fst_runChat_congr (h : w.forPrograms = w'.forPrograms) (program command : String) :
    (runChat program command w).1 = (runChat program command w').1 := by
  have hrun := fst_run_congr h program ["-e", command, "-t", "3"]
  have hfst : ∀ v : Surroundings, (runChat program command v).1 =
      match (v.run program ["-e", command, "-t", "3"]).1 with
      | .error e => .error (.ofFile e)
      | .ok exit =>
        if exit.code = 0 then .ok ()
        else
          .error (.refused (program ++ " exited with exit status: " ++ toString exit.code ++ ": " ++
            String.ofList (Text.trim (Text.decodeLossy exit.complaint)))) := by
    intro v
    rw [runChat]
    rcases v.run program ["-e", command, "-t", "3"] with ⟨_ | exit, v'⟩
    · rfl
    · dsimp only
      split
      · rfl
      · rfl
  rw [hfst, hfst, hrun]

theorem fst_exchange_congr (h : w.replies = w'.replies) (method token : String) (u : Url)
    (body : Option Json.Value) :
    (exchange method u token body w).1 = (exchange method u token body w').1 := by
  cases hcan : canRequest u token with
  | false =>
    obtain ⟨fault, hexchange⟩ := exchange_of_not_canRequest hcan
    rw [hexchange w, hexchange w']
  | true =>
    rw [exchange_of_canRequest hcan, exchange_of_canRequest hcan, Surroundings.request,
      Surroundings.request, h]
    rcases w'.replies with _ | ⟨_ | ⟨status, data⟩, rest⟩
    · rfl
    · rfl
    · dsimp only
      split
      · rfl
      · rfl

end

theorem looksAt_simplex (s : SimplexSettings) :
    (simplex s).LooksAt Surroundings.forPrograms where
  available h := by
    show (Surroundings.findProgram _ s.program).isSome = _
    rw [findProgram_congr h]
    rfl
  send := by
    intro w w' line h
    show (simplexSend s line w).1 = (simplexSend s line w').1
    unfold simplexSend
    rw [findProgram_congr h]
    split
    · rfl
    · split
      · rfl
      · exact fst_runChat_congr h ..
      · exact fst_runChat_congr h ..
      · rename_i group contact _ _
        have hgroup := fst_runChat_congr h s.program ("#" ++ group ++ " " ++ line)
        obtain ⟨journal, hw⟩ := journal_runChat s.program ("#" ++ group ++ " " ++ line) w
        obtain ⟨journal', hw'⟩ := journal_runChat s.program ("#" ++ group ++ " " ++ line) w'
        -- a group that fails leaves what the contact is tried with
        rcases hr : runChat s.program ("#" ++ group ++ " " ++ line) w with ⟨result, v⟩
        rcases hr' : runChat s.program ("#" ++ group ++ " " ++ line) w' with ⟨result', v'⟩
        rw [hr] at hgroup hw
        rw [hr'] at hgroup hw'
        obtain rfl : result = result' := hgroup
        obtain rfl : v = { w with journal } := hw
        obtain rfl : v' = { w' with journal := journal' } := hw'
        cases result with
        | ok => rfl
        | error e =>
          have hleft : Surroundings.forPrograms { w with journal } =
              Surroundings.forPrograms { w' with journal := journal' } := h
          exact fst_runChat_congr hleft s.program ("@" ++ contact ++ " " ++ line)

theorem looksAt_matrix (s : MatrixSettings) : (matrix s).LooksAt Surroundings.forExchanges where
  available := by
    intro w w' h
    obtain ⟨htree, hrest⟩ := Prod.mk.inj h
    have hfolder : w.folder = w'.folder := (Prod.mk.inj hrest).1
    show (s.room.isSome && w.isFile s.credentialsFile) = _
    rw [Surroundings.isFile, Surroundings.node?, Surroundings.locate, htree, hfolder]
    rfl
  send := by
    intro w w' line h
    obtain ⟨htree, hrest⟩ := Prod.mk.inj h
    obtain ⟨hfolder, hrest⟩ := Prod.mk.inj hrest
    obtain ⟨hclock, hrest⟩ := Prod.mk.inj hrest
    obtain ⟨hseed, hreplies⟩ := Prod.mk.inj hrest
    have hcredentials : s.credentials w = s.credentials w' := by
      unfold MatrixSettings.credentials Surroundings.isFile Surroundings.node?
        Surroundings.readText Surroundings.locate
      rw [htree, hfolder]
    have hdrawn : (w.draw 1).replies = (w'.draw 1).replies := hreplies
    show (matrixSend s line w).1 = (matrixSend s line w').1
    cases hc : s.credentials w' with
    | error fault => rw [matrixSend, matrixSend, hcredentials, hc]
    | ok c =>
      cases hu : s.url c ["send", "m.room.message", Ulid.text w'.clock.unixMillis w'.seed] with
      | error fault =>
        rw [matrixSend, matrixSend, hcredentials, hc, hclock, hseed]
        dsimp only
        rw [hu]
      | ok u =>
        rw [MatrixSettings.matrixSend_eq hc hu, MatrixSettings.matrixSend_eq
          (hcredentials.trans hc) (by rw [hclock, hseed, hu]), fst_exchange_congr hdrawn]

theorem leaves_simplex (s : SimplexSettings) : (simplex s).Leaves Surroundings.forExchanges := by
  intro line w
  obtain ⟨journal, hsend⟩ := journal_simplexSend s line w
  show Surroundings.forExchanges (simplexSend s line w).2 = _
  rw [hsend]
  rfl

theorem leaves_matrix (s : MatrixSettings) : (matrix s).Leaves Surroundings.forPrograms := by
  intro line w
  show Surroundings.forPrograms (matrixSend s line w).2 = _
  rcases MatrixSettings.matrixSend_cases s line w with ⟨c, u, hc, hu⟩ | ⟨fault, seed, hsend⟩
  · obtain ⟨replies, journal, hexchange⟩ :=
      surroundings_exchange "PUT" u c.token (some (lineContent line)) (w.draw 1)
    rw [MatrixSettings.matrixSend_eq hc hu, hexchange]
    rfl
  · rw [hsend]
    rfl

/-- A channel changes nothing but what channels and rooms hold. -/
theorem leaves_stream {α : Type} {view : Surroundings → α}
    (h : ∀ w channels rooms, view { w with channels, rooms } = view w) (s : StreamSettings) :
    (stream s).Leaves view := by
  intro line w
  show view (orFault s.sendFault ((), s.send line w) w).2 = view w
  unfold orFault StreamSettings.send
  split
  · rfl
  · dsimp only
    split
    · exact h w _ _
    · exact h w _ w.rooms

/-- Whatever a transport of the program looks at is left alone by those of other names. -/
theorem exists_looksAt_of_isOfProgram {t : Transport Surroundings} (ht : t.IsOfProgram) :
    ∃ (α : Type) (view : Surroundings → α), t.LooksAt view ∧
      ∀ u : Transport Surroundings, u.IsOfProgram → u.name ≠ t.name → u.Leaves view := by
  cases ht with
  | here => exact ⟨Unit, fun _ => (), ⟨fun _ => rfl, fun _ _ => rfl⟩, fun u _ _ line w => rfl⟩
  | simplex s =>
    refine ⟨_, _, looksAt_simplex s, fun u hu hname => ?_⟩
    cases hu with
    | here => exact fun line w => rfl
    | simplex s' => exact absurd rfl hname
    | matrix s' => exact leaves_matrix s'
    | stream s' => exact leaves_stream (fun w channels rooms => rfl) s'
  | matrix s =>
    refine ⟨_, _, looksAt_matrix s, fun u hu hname => ?_⟩
    cases hu with
    | here => exact fun line w => rfl
    | simplex s' => exact leaves_simplex s'
    | matrix s' => exact absurd rfl hname
    | stream s' => exact leaves_stream (fun w channels rooms => rfl) s'
  | stream s =>
    refine ⟨Unit, fun _ => (), ⟨fun _ => rfl, fun line _ => ?_⟩, fun u _ _ line w => rfl⟩
    show (orFault s.sendFault _ _).1 = (orFault s.sendFault _ _).1
    cases s.sendFault with
    | none => rfl
    | some fault => rfl

/-- The transports of a configuration are relayed to as if each of them were the only one. -/
theorem relay_configured (c : Config) (x : Selector) (e : Envelope) (w : Surroundings) :
    (c.registry.relay x e w).1 =
      (c.registry.resolve x).map fun t => (t.relay e.encode w).1 := by
  have hprogram : ∀ t ∈ c.registry.resolve x, t.IsOfProgram :=
    fun t ht => isOfProgram_registry c t ((c.registry.resolve_sublist x).subset ht)
  have hnames : ((c.registry.resolve x).map (·.name)).Pairwise (· < ·) :=
    Registry.pairwise_names (Registry.ordered_registered _) x
  refine relayAll_eq_map _ (fun front t back hsplit => ?_) w
  obtain ⟨α, view, ht, hleaves⟩ := exists_looksAt_of_isOfProgram (hprogram t (by simp [hsplit]))
  refine ⟨α, view, ht, fun u hu => hleaves u (hprogram u (by simp [hsplit, hu])) ?_⟩
  rw [hsplit, List.map_append, List.map_cons, List.pairwise_append] at hnames
  exact ne_of_lt (hnames.2.2 u.name (List.mem_map_of_mem hu) t.name List.mem_cons_self)

end Mailroom
