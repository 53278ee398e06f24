/-
Letters can travel.

* `Letter.Sound` — recipient and sender are there, and what is written as it is holds no
  delimiter;
* `letter_of_check` — what the checks of a draft say of its letter;
* `sound_of_check` — so it is with every letter that comes from a draft;
* `plain_envelope` — the envelope of such a letter can be read back from its line;
* `messages_eq_cons` — the first message of a letter has the id of the envelope;
* `post_cases` — a draft changes nothing, or all messages of its letter are stored.
-/
import Mailroom.Mailbox.Posting
import Mailroom.Proofs.EnvelopeLine
import Mailroom.Proofs.Outcome
import Mailroom.Proofs.Store.Transactions
import Mailroom.Ulid
import Mathlib.Data.List.GetD

namespace Mailroom

/-! ### Ids -/

theorem mem_digits {n x : Nat} {c : Char} (h : c ∈ Ulid.digits n x) : c ∈ Ulid.alphabet := by
  induction n generalizing x with
  | zero => exact absurd h List.not_mem_nil
  | succ n ih =>
    rcases List.mem_append.1 h with h | h
    · exact ih h
    · obtain rfl := List.mem_singleton.1 h
      have hlt : x % 32 < Ulid.alphabet.length := Nat.mod_lt _ (by decide)
      rw [List.getD_eq_getElem _ _ hlt]
      exact List.getElem_mem hlt

theorem toList_messageId (millis random : Nat) : (messageId millis random).toList =
    "msg-".toList ++ (Ulid.digits 10 millis ++ Ulid.digits 16 random).map Char.toLower := by
  simp [messageId, Ulid.text]

theorem messageId_ne_empty (millis random : Nat) : messageId millis random ≠ "" := by
  intro h
  have := congrArg String.toList h
  rw [toList_messageId] at this
  exact absurd this (by simp)

theorem isWireSafe_messageId (millis random : Nat) :
    isWireSafe (messageId millis random) = true := by
  have halphabet : Ulid.alphabet.all (fun c =>
      c.toLower != delimiter && c.toLower != '\n' && c.toLower != '\r') = true := by decide
  rw [isWireSafe, toList_messageId, List.all_append, List.all_map, Bool.and_eq_true]
  refine ⟨by decide, List.all_eq_true.2 fun c hc => List.all_eq_true.1 halphabet c ?_⟩
  rcases List.mem_append.1 hc with hc | hc <;> exact mem_digits hc

/-! ### Fields -/

theorem delimiter_not_mem_of_isWireSafe {field : String} (h : isWireSafe field = true) :
    delimiter ∉ field.toList := by
  intro hmem
  have := List.all_eq_true.1 h delimiter hmem
  exact absurd this (by decide)

theorem isWireSafe_of_require {name field : String} {u : Unit}
    (h : requireWireSafe name field = .ok u) : isWireSafe field = true := by
  by_contra hunsafe
  rw [requireWireSafe, if_neg hunsafe] at h
  exact absurd h (by simp)

theorem ne_empty_of_nonBlank? {value : Option String} {text : String}
    (h : Text.nonBlank? value = some text) : text ≠ "" := by
  have := (Option.filter_eq_some_iff.1 h).2
  simpa using this

theorem ne_empty_of_requireText {name text : String} {value : Option String}
    (h : requireText name value = .ok text) : text ≠ "" := by
  unfold requireText at h
  split at h
  · rename_i hblank
    obtain rfl := Except.ok.inj h
    exact ne_empty_of_nonBlank? hblank
  · exact absurd h (by simp)

theorem getD_nonBlank?_ne_empty {value : Option String} {default : String} (h : default ≠ "") :
    (Text.nonBlank? value).getD default ≠ "" := by
  cases hblank : Text.nonBlank? value with
  | none => exact h
  | some text => exact ne_empty_of_nonBlank? hblank

/-- Recipient and sender of a letter are there, and what is written as it is can be. -/
structure Letter.Sound (l : Letter) : Prop where
  recipient_ne : l.recipient ≠ ""
  sender_ne : l.sender ≠ ""
  recipient_safe : isWireSafe l.recipient = true
  sender_safe : isWireSafe l.sender = true
  convoy_safe : isWireSafe l.convoy = true

theorem letter_of_check {d : Draft} {self : String} {default : Selector} {l : Letter}
    (h : d.check self default = .ok l) : requireText "to" d.recipient = .ok l.recipient ∧
      (Text.nonBlank? d.sender).getD self = l.sender ∧ isWireSafe l.recipient = true ∧
      isWireSafe l.sender = true ∧ isWireSafe l.convoy = true := by
  -- the checks are peeled off in their order; those that matter are named
  simp only [Draft.check, bind_eq_ok, pure_eq_ok] at h
  obtain ⟨recipient, hrecipient, _, -, type, -, payload, -, priority, -, selector, -, _, hto, _,
    hfrom, _, hconvoy, rfl⟩ := h
  exact ⟨hrecipient, rfl, isWireSafe_of_require hto, isWireSafe_of_require hfrom,
    isWireSafe_of_require hconvoy⟩

theorem sound_of_check {d : Draft} {self : String} {default : Selector} {l : Letter}
    (hself : self ≠ "") (h : d.check self default = .ok l) : l.Sound := by
  obtain ⟨hrecipient, hsender, hto, hfrom, hconvoy⟩ := letter_of_check h
  refine ⟨ne_empty_of_requireText hrecipient, ?_, hto, hfrom, hconvoy⟩
  rw [← hsender]
  exact getD_nonBlank?_ne_empty hself

theorem plain_envelope {l : Letter} (h : l.Sound) (millis random : Nat → Nat) :
    (l.envelope fun i => messageId (millis i) (random i)).Plain := by
  have hdestination : l.destination ≠ "" ∧ delimiter ∉ l.destination.toList := by
    unfold Letter.destination
    split
    · decide
    · exact ⟨h.recipient_ne, delimiter_not_mem_of_isWireSafe h.recipient_safe⟩
  exact ⟨messageId_ne_empty _ _, h.sender_ne, hdestination.1,
    delimiter_not_mem_of_isWireSafe (isWireSafe_messageId _ _),
    delimiter_not_mem_of_isWireSafe h.sender_safe, hdestination.2,
    delimiter_not_mem_of_isWireSafe h.convoy_safe⟩

/-! ### What is stored -/

theorem recipients_eq_cons (l : Letter) (s : Store) :
    ∃ recipient rest, l.recipients s = recipient :: rest ∧
      (l.isBroadcast = false → recipient = l.recipient) := by
  unfold Letter.recipients
  split
  · rename_i hbroadcast
    split
    · exact ⟨everyone, [], rfl, fun h => absurd hbroadcast (by simp [h])⟩
    · rename_i hsome
      obtain ⟨other, others, hothers⟩ := List.exists_cons_of_ne_nil hsome
      exact ⟨other, others, hothers, fun h => absurd hbroadcast (by simp [h])⟩
  · exact ⟨l.recipient, [], rfl, fun _ => rfl⟩

/-- The first message of a letter has the id of its envelope, and goes to the letter's
recipient unless the letter is a broadcast. -/
theorem messages_eq_cons (l : Letter) (s : Store) (time : String) (ids : Nat → String) :
    ∃ recipient rest, l.messages s time ids = l.message time (ids 0) recipient :: rest ∧
      (l.isBroadcast = false → recipient = l.recipient) := by
  obtain ⟨recipient, rest, hrecipients, hsingle⟩ := recipients_eq_cons l s
  refine ⟨recipient, rest.mapIdx fun i r => l.message time (ids (i + 1)) r, ?_, hsingle⟩
  rw [Letter.messages, hrecipients, List.mapIdx_cons]

section

variable {σ : Type} {b : Mailbox σ} {d : Draft} {time : String} {ids : Nat → String}
  {s s' : Store} {l : Letter} {ms : List Message}

theorem post_of_transact (hcheck : d.check b.identity.agentId b.selector = .ok l)
    (hstored : s.transact (l.messages s time ids) = (.ok (), s')) :
    b.post d time ids s = (.ok (l, l.messages s time ids), s') := by
  rw [Mailbox.post, hcheck]
  dsimp only
  rw [hstored]

theorem send_of_post (h : b.post d time ids s = (.ok (l, ms), s')) (w : σ) :
    b.send d time ids s w =
      (.ok ⟨ms.map (·.id), (b.registry.relay l.selector (l.envelope ids) w).1⟩, s',
        (b.registry.relay l.selector (l.envelope ids) w).2) := by
  rw [Mailbox.send, h]

/-- A draft is refused and changes nothing, or all messages of its letter are stored. -/
theorem post_cases (b : Mailbox σ) (d : Draft) (time : String) (ids : Nat → String) (s : Store) :
    (∃ e, b.post d time ids s = (.error e, s)) ∨
      ∃ l s', d.check b.identity.agentId b.selector = .ok l ∧
        s.transact (l.messages s time ids) = (.ok (), s') ∧
        b.post d time ids s = (.ok (l, l.messages s time ids), s') := by
  cases hcheck : d.check b.identity.agentId b.selector with
  | error f => exact .inl ⟨.input f, by rw [Mailbox.post, hcheck]⟩
  | ok l =>
    by_cases h : ((l.messages s time ids).map (·.id)).Nodup ∧
        ∀ m ∈ l.messages s time ids, m.id ∉ s.ids
    · have hstored := transact_of_fresh h.1 h.2
      exact .inr ⟨l, _, rfl, hstored, post_of_transact hcheck hstored⟩
    · refine .inl ⟨.storage .idTaken, ?_⟩
      rw [Mailbox.post, hcheck]
      dsimp only
      rw [transact_of_clash h]

end

end Mailroom
