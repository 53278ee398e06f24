/-
Surroundings that transports cannot tell apart.

A transport that fetches and fails may have changed its surroundings: over the network, a request
was made and an answer used up. Other transports are not concerned if they cannot tell the
surroundings before and after apart, whatever they are asked to do. Of the transports of the
program only the one over a Matrix room changes anything when it fails to fetch, and what it
changes no other one looks at.

* `Transport.Respects` — a transport that answers the same in surroundings that are alike;
* `Indistinct` — surroundings that some transports cannot tell apart;
* `Surroundings.requested` — surroundings in which other requests were made;
* `surroundings_matrixFetch` — a fetch from a room does nothing but make requests;
* `Transport.IsOfProgram` — the transports of the program;
* `respects_local`, `respects_simplex`, `respects_stream` — these do not look at requests;
* `indistinct_of_fetch_error` — so the transports of the program do not see each other fail.
-/
import Mailroom.Mailbox.Configured
import Mailroom.Proofs.Transport.Relaying
import Mailroom.Proofs.Transport.Stream

namespace Mailroom

variable {σ : Type}

/-- Whether a transport answers the same in surroundings that are alike, and leaves them alike. -/
structure Transport.Respects (t : Transport σ) (alike : σ → σ → Prop) : Prop where
  canReceive : ∀ {w w'}, alike w w' → t.canReceive w = t.canReceive w'
  fetch : ∀ {w w'}, alike w w' →
    (t.fetch w).1 = (t.fetch w').1 ∧ alike (t.fetch w).2 (t.fetch w').2
  commit : ∀ c {w w'}, alike w w' →
    (t.commit c w).1 = (t.commit c w').1 ∧ alike (t.commit c w).2 (t.commit c w').2

/-- Some transports cannot tell two surroundings apart, whatever they are asked to fetch and to
commit, and in whatever order. -/
def Indistinct (ts : List (Transport σ)) (w w' : σ) : Prop :=
  ∃ alike : σ → σ → Prop, (∀ t ∈ ts, t.Respects alike) ∧ alike w w'

theorem Transport.respects_eq (t : Transport σ) : t.Respects Eq where
  canReceive := by
    rintro w _ rfl
    rfl
  fetch := by
    rintro w _ rfl
    exact ⟨rfl, rfl⟩
  commit := by
    rintro c w _ rfl
    exact ⟨rfl, rfl⟩

theorem Indistinct.refl (ts : List (Transport σ)) (w : σ) : Indistinct ts w w :=
  ⟨Eq, fun t _ => t.respects_eq, rfl⟩

/-! ### Requests -/

namespace Surroundings

/-- The surroundings in which other requests were made, and other answers are to come. -/
def requested (w : Surroundings) (replies : List Reply) (journal : List Deed) : Surroundings :=
  { w with replies, journal }

/-- Surroundings that differ at most in the requests that were made. -/
def SameButRequests (w w' : Surroundings) : Prop :=
  ∃ replies journal, w' = w.requested replies journal

variable (w : Surroundings) (replies : List Reply) (journal : List Deed)

theorem makeFolders_requested (path : String) :
    (w.requested replies journal).makeFolders path =
      (w.makeFolders path).map (·.requested replies journal) := by
  simp only [makeFolders, requested]
  rcases w.tree.makeFolders _ with _ | tree
  · rfl
  · rfl

end Surroundings

theorem surroundings_exchange (method : String) (u : Url) (token : String)
    (body : Option Json.Value) (w : Surroundings) :
    w.SameButRequests (exchange method u token body w).2 := by
  have hsame : w.SameButRequests w := ⟨w.replies, w.journal, rfl⟩
  have hrequest : ∀ r, w.SameButRequests (w.request r).2 := by
    intro r
    unfold Surroundings.request
    dsimp only
    split
    · exact ⟨w.replies, _, rfl⟩
    · exact ⟨_, _, rfl⟩
  unfold exchange
  dsimp only
  split
  · exact hsame
  · split
    · exact hsame
    · have hw := hrequest ⟨method, u.withoutUser.render, "Bearer " ++ token, body⟩
      split
      · rename_i heq
        rwa [heq] at hw
      · rename_i heq
        rw [heq] at hw
        split
        · exact hw
        · exact hw

/-- A fetch from a room does nothing but make requests. -/
theorem surroundings_matrixFetch (s : MatrixSettings) (w : Surroundings) :
    w.SameButRequests (matrixFetch s w).2 := by
  have hsame : w.SameButRequests w := ⟨w.replies, w.journal, rfl⟩
  unfold matrixFetch
  dsimp only
  split
  · exact hsame
  · rename_i c _
    split
    · exact hsame
    · rename_i u _
      have hw := surroundings_exchange "GET" (pageUrl u (s.cursor w)) c.token none w
      split
      · rename_i heq
        rwa [heq] at hw
      · rename_i heq
        rwa [heq] at hw

theorem consume_requested (processed : String) (paths : List String) (w : Surroundings)
    (replies : List Reply) (journal : List Deed) :
    consume processed paths (w.requested replies journal) =
      ((consume processed paths w).1, (consume processed paths w).2.requested replies journal) := by
  induction paths generalizing w with
  | nil => rfl
  | cons path rest ih =>
    rw [consume, consume]
    split
    · exact ih w
    · rename_i name _
      have hmoved : (do
          let source ← (w.requested replies journal).locate path
          let target ← (w.requested replies journal).locate (PathText.join processed name)
          (w.requested replies journal).tree.rename source target) = (do
          let source ← w.locate path
          let target ← w.locate (PathText.join processed name)
          w.tree.rename source target) := rfl
      dsimp only
      rw [hmoved]
      split
      · rfl
      · rename_i tree _
        exact ih { w with tree }

theorem sweep_requested (processed : String) (w : Surroundings) (replies : List Reply)
    (journal : List Deed) :
    sweep processed (w.requested replies journal) =
      (sweep processed w).requested replies journal := by
  have hplace : (w.requested replies journal).locate processed = w.locate processed := rfl
  rw [sweep, sweep, hplace]
  rcases w.locate processed with _ | l
  · rfl
  · rfl

theorem spoolCommit_requested (spool : String) (c : Checkpoint) (w : Surroundings)
    (replies : List Reply) (journal : List Deed) :
    spoolCommit spool c (w.requested replies journal) =
      ((spoolCommit spool c w).1, (spoolCommit spool c w).2.requested replies journal) := by
  unfold spoolCommit
  dsimp only
  split
  · rw [sweep_requested]
  · rw [Surroundings.makeFolders_requested]
    rcases w.makeFolders (PathText.join spool processedName) with e | w₁
    · rfl
    · dsimp only [Except.map]
      rw [consume_requested]
      rcases consume (PathText.join spool processedName) _ w₁ with ⟨e | _, w₂⟩
      · rfl
      · dsimp only
        rw [sweep_requested]
  · rfl

/-! ### The transports of the program -/

/-- The transports that the program has: that of this machine, those over SimpleX and over a Matrix
room, and in-process channels. -/
inductive Transport.IsOfProgram : Transport Surroundings → Prop
  | here : (localTransport Surroundings).IsOfProgram
  | simplex (s : SimplexSettings) : (Mailroom.simplex s).IsOfProgram
  | matrix (s : MatrixSettings) : (Mailroom.matrix s).IsOfProgram
  | stream (s : StreamSettings) : (Mailroom.stream s).IsOfProgram

theorem isOfProgram_registry (c : Config) : ∀ t ∈ c.registry.transports, t.IsOfProgram := by
  intro t ht
  rcases mem_insertByName ht with rfl | ht
  · exact .matrix _
  · rcases mem_insertByName ht with rfl | ht
    · exact .simplex _
    · rcases mem_insertByName ht with rfl | ht
      · exact .here
      · exact absurd ht List.not_mem_nil

theorem respects_local : (localTransport Surroundings).Respects Surroundings.SameButRequests where
  canReceive _ := rfl
  fetch h := ⟨rfl, h⟩
  commit _ _ _ h := ⟨rfl, h⟩

theorem respects_simplex (s : SimplexSettings) :
    (simplex s).Respects Surroundings.SameButRequests where
  canReceive := by
    rintro w _ ⟨replies, journal, rfl⟩
    rfl
  fetch := by
    rintro w _ ⟨replies, journal, rfl⟩
    exact ⟨rfl, replies, journal, rfl⟩
  commit := by
    rintro c w _ ⟨replies, journal, rfl⟩
    have hcommit := spoolCommit_requested s.spool c w replies journal
    exact ⟨(congrArg Prod.fst hcommit).symm, replies, journal, congrArg Prod.snd hcommit⟩

theorem respects_stream (s : StreamSettings) :
    (stream s).Respects Surroundings.SameButRequests where
  canReceive _ := rfl
  fetch := by
    rintro w _ ⟨replies, journal, rfl⟩
    simp only [stream, orFault]
    split
    · exact ⟨rfl, replies, journal, rfl⟩
    · exact ⟨rfl, replies, journal, rfl⟩
  commit := by
    rintro c w _ ⟨replies, journal, rfl⟩
    simp only [stream, orFault]
    split
    · exact ⟨rfl, replies, journal, rfl⟩
    · refine ⟨rfl, replies, journal, ?_⟩
      unfold StreamSettings.commit
      split
      · split
        · rfl
        · rfl
      · rfl

/-- The transports of the program do not see each other fail to fetch, if no name comes twice. -/
theorem indistinct_of_fetch_error {t : Transport Surroundings} {ts : List (Transport Surroundings)}
    (hprogram : ∀ u ∈ t :: ts, u.IsOfProgram) (hname : ∀ u ∈ ts, t.name ≠ u.name)
    {w w₁ : Surroundings} {e : TransportFault} (hfetch : t.fetch w = (.error e, w₁)) :
    Indistinct ts w w₁ := by
  cases hprogram t List.mem_cons_self with
  | here => exact absurd (Prod.mk.inj hfetch).1 nofun
  | simplex s =>
    obtain ⟨-, rfl⟩ := Prod.mk.inj hfetch
    exact .refl ts w
  | matrix s =>
    refine ⟨Surroundings.SameButRequests, fun u hu => ?_, ?_⟩
    · cases hprogram u (List.mem_cons_of_mem _ hu) with
      | here => exact respects_local
      | simplex => exact respects_simplex _
      | matrix s' => exact absurd rfl (hname (matrix s') hu)
      | stream => exact respects_stream _
    · have hw := surroundings_matrixFetch s w
      rwa [show matrixFetch s w = _ from hfetch] at hw
  | stream s =>
    obtain ⟨-, rfl⟩ | ⟨-, rfl⟩ := orFault_cases hfetch
    · exact .refl ts _
    · exact .refl ts _

end Mailroom
