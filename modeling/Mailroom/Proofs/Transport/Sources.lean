/-
From which texts the transports read.

A transport hands over envelopes that it has read from texts. The files of a spool are cut into
lines first, so none of these texts holds a line feed; a message of a room is read as it is,
however many lines it has.

* `Envelope.IsReadFrom` — an envelope that can be read from one of several texts;
* `Transport.Reads` — a transport that hands over nothing else;
* `isReadFrom_pullAll` — then a pass hands over nothing else;
* `reads_simplex`, `reads_matrix` — the two transports that lead to other machines;
* `reads_registry` — the transports of a configuration.
-/
import Mailroom.Mailbox.Configured
import Mailroom.Proofs.Mailbox.Arrivals
import Mailroom.Proofs.Text.Pieces
import Mailroom.Proofs.Transport.Relaying

namespace Mailroom

variable {σ : Type} {texts : String → Prop} {e : Envelope}

/-- An envelope can be read from one of these texts. -/
def Envelope.IsReadFrom (texts : String → Prop) (e : Envelope) : Prop :=
  ∃ text, texts text ∧ Envelope.decode? text = some e

/-- Whatever a transport hands over, it has read from these texts. -/
def Transport.Reads (t : Transport σ) (texts : String → Prop) : Prop :=
  ∀ w fetched w', t.fetch w = (.ok fetched, w') → ∀ e ∈ fetched.envelopes, e.IsReadFrom texts

theorem Transport.Reads.mono {t : Transport σ} {more : String → Prop} (h : t.Reads texts)
    (hmore : ∀ text, texts text → more text) : t.Reads more := by
  intro w fetched w' hfetch e he
  obtain ⟨text, htext, hdecode⟩ := h w fetched w' hfetch e he
  exact ⟨text, hmore text htext, hdecode⟩

theorem isReadFrom_pullAll {ts : List (Transport σ)} (hts : ∀ t ∈ ts, t.Reads texts)
    (times : Nat → String) (w : σ) {time : String} (he : (e, time) ∈ (pullAll times ts w).1) :
    e.IsReadFrom texts := by
  refine (pullAll_induction (fun _ => True) ?_ times trivial).2 e time he
  intro t ht v _
  refine ⟨trivial, fun e he => ?_⟩
  obtain ⟨fetched, w', hfetch, he⟩ := exists_fetch_of_mem_pull he
  exact hts t ht v fetched w' hfetch e he

/-! ### Each transport -/

theorem reads_local : (localTransport σ).Reads texts := by
  intro w fetched w' hfetch e he
  obtain rfl := Except.ok.inj (Prod.mk.inj hfetch).1
  exact absurd he List.not_mem_nil

theorem isReadFrom_envelopesInText {text : List Char} (he : e ∈ envelopesInText text) :
    e.IsReadFrom fun line => '\n' ∉ line.toList := by
  rw [envelopesInText] at he
  split at he
  · obtain ⟨line, hline, hdecode⟩ := List.mem_filterMap.1 he
    have hline := Text.feed_not_mem_of_mem_lines (List.mem_filter.1 hline).1
    refine ⟨String.ofList line, ?_, ?_⟩
    · show '\n' ∉ (String.ofList line).toList
      rwa [String.toList_ofList]
    · rwa [Envelope.decode?, String.toList_ofList]
  · exact absurd he List.not_mem_nil

theorem isReadFrom_envelopesInFile {f : File} (he : e ∈ envelopesInFile f) :
    e.IsReadFrom fun line => '\n' ∉ line.toList := by
  unfold envelopesInFile at he
  split at he
  · split at he
    · exact isReadFrom_envelopesInText he
    · exact absurd he List.not_mem_nil
  · exact absurd he List.not_mem_nil

theorem reads_simplex (s : SimplexSettings) :
    (simplex s).Reads fun line => '\n' ∉ line.toList := by
  intro w fetched w' hfetch e he
  have hspool : spoolFetch s.spool w = .ok fetched := (Prod.mk.inj hfetch).1
  unfold spoolFetch at hspool
  split at hspool
  · obtain rfl := Except.ok.inj hspool
    exact absurd he List.not_mem_nil
  · split at hspool
    · exact absurd hspool (by simp)
    · obtain rfl := Except.ok.inj hspool
      obtain ⟨⟨name, f⟩, -, he⟩ := List.mem_flatMap.1 he
      exact isReadFrom_envelopesInFile he

theorem isReadFrom_pageEnvelopes {p : Page} {backwards : Bool} (he : e ∈ p.envelopes backwards) :
    e.IsReadFrom fun text => ∃ event ∈ p.events, event.text? = some text := by
  have he : e ∈ p.events.filterMap RoomEvent.envelope? := by
    unfold Page.envelopes at he
    split at he
    · exact List.mem_reverse.1 he
    · exact he
  obtain ⟨event, hevent, henvelope⟩ := List.mem_filterMap.1 he
  obtain ⟨text, htext, hdecode⟩ := Option.bind_eq_some_iff.1 henvelope
  exact ⟨text, ⟨event, hevent, (Option.filter_eq_some_iff.1 htext).1⟩, hdecode⟩

theorem reads_matrix (s : MatrixSettings) : (matrix s).Reads fun _ => True := by
  intro w fetched w' hfetch e he
  have hroom : (matrixFetch s w).1 = .ok fetched := congrArg Prod.fst hfetch
  unfold matrixFetch at hroom
  dsimp only at hroom
  split at hroom
  · exact absurd hroom (by simp)
  · split at hroom
    · exact absurd hroom (by simp)
    · split at hroom
      · exact absurd hroom (by simp)
      · rename_i data _ _
        cases hpage : readPage data with
        | error fault =>
          rw [hpage] at hroom
          exact absurd hroom (by simp [Except.map])
        | ok page =>
          rw [hpage] at hroom
          obtain rfl := Except.ok.inj hroom
          obtain ⟨text, -, hdecode⟩ := isReadFrom_pageEnvelopes he
          exact ⟨text, trivial, hdecode⟩

/-- Of the transports of a configuration, only the one over a Matrix room reads texts of several
lines. -/
theorem reads_registry (c : Config) : ∀ t ∈ c.registry.transports,
    t.Reads fun text => t.name = Selector.matrix.name ∨ '\n' ∉ text.toList := by
  intro t ht
  rcases mem_insertByName ht with rfl | ht
  · exact (reads_matrix _).mono fun _ _ => .inl rfl
  · rcases mem_insertByName ht with rfl | ht
    · exact (reads_simplex _).mono fun _ => .inr
    · rcases mem_insertByName ht with rfl | ht
      · exact reads_local
      · exact absurd ht List.not_mem_nil

end Mailroom
