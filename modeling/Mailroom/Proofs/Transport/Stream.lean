/-
What the operations of an in-process channel do to its lines and its offset.

* `orFault_cases` — an operation works, or it fails and nothing has changed;
* `lines_feed`, `offset_feed` — lines that come in stand at the end;
* `lines_commit`, `offset_commit` — committing a cursor moves the offset there, which may
  be forward or backward, and nothing else.
-/
import Mailroom.Proofs.Text.Numeral
import Mailroom.Transport.Stream

namespace Mailroom

namespace Surroundings

/-- Surroundings with nothing in them. -/
def bare : Surroundings := ⟨.bare, [], [], [], 1, ⟨0, 0⟩, 0, [], [], [], []⟩

theorem channel_setChannel (w : Surroundings) (name : String) (c : Channel) :
    (w.setChannel name c).channel name = c := by
  simp [channel, setChannel]

theorem room_say (w : Surroundings) (name line : String) :
    (w.say name line).room name = w.room name ++ [line] := by
  simp [room, say]

end Surroundings

theorem orFault_cases {α σ : Type} {fault : Option TransportFault} {result : α × σ} {w w' : σ}
    {r : Except TransportFault α} (h : orFault fault result w = (r, w')) :
    (r = .ok result.1 ∧ w' = result.2) ∨ (∃ e, r = .error e) ∧ w' = w := by
  cases fault with
  | none =>
    obtain ⟨rfl, rfl⟩ := Prod.mk.inj h
    exact .inl ⟨rfl, rfl⟩
  | some e =>
    obtain ⟨rfl, rfl⟩ := Prod.mk.inj h
    exact .inr ⟨⟨e, rfl⟩, rfl⟩

namespace StreamSettings

/-- A channel of its own, on which everything works. -/
def plain (name : String) : StreamSettings :=
  ⟨name, name, true, true, true, none, none, none, none⟩

/-- The position up to which a channel has been taken over. -/
def offset (s : StreamSettings) (w : Surroundings) : Nat := (w.channel s.channel).offset

/-- The envelopes among the first lines of a channel. -/
def envelopesBefore (s : StreamSettings) (w : Surroundings) (n : Nat) : List Envelope :=
  ((s.lines w).take n).filterMap Envelope.decode?

variable (s : StreamSettings) (w : Surroundings)

theorem foldl_say (room : String) (ls : List String) :
    (ls.foldl (fun w line => w.say room line) w).room room = w.room room ++ ls ∧
      ∀ name, (ls.foldl (fun w line => w.say room line) w).channel name = w.channel name := by
  induction ls generalizing w with
  | nil => simp
  | cons line ls ih =>
    obtain ⟨hroom, hchannel⟩ := ih (w.say room line)
    refine ⟨?_, hchannel⟩
    rw [List.foldl_cons, hroom, Surroundings.room_say, List.append_assoc, List.singleton_append]

theorem lines_feed (ls : List String) : s.lines (s.feed ls w) = s.lines w ++ ls := by
  unfold lines feed
  cases s.room with
  | none => simp [Surroundings.channel_setChannel]
  | some room => exact (foldl_say w room ls).1

theorem offset_feed (ls : List String) : s.offset (s.feed ls w) = s.offset w := by
  unfold offset feed
  cases s.room with
  | none => simp [Surroundings.channel_setChannel]
  | some room => exact congrArg Channel.offset ((foldl_say w room ls).2 s.channel)

theorem commit_cursor (n : Nat) : s.commit (.cursor (toString n)) w =
    w.setChannel s.channel { w.channel s.channel with offset := n } := by
  rw [commit, Text.natural?_toString]

theorem lines_commit (n : Nat) : s.lines (s.commit (.cursor (toString n)) w) = s.lines w := by
  rw [commit_cursor]
  unfold lines
  cases s.room with
  | none => simp [Surroundings.channel_setChannel]
  | some room => rfl

theorem offset_commit (n : Nat) : s.offset (s.commit (.cursor (toString n)) w) = n := by
  rw [commit_cursor, offset, Surroundings.channel_setChannel]

theorem envelopesBefore_feed {n : Nat} (hn : n ≤ (s.lines w).length) (ls : List String) :
    s.envelopesBefore (s.feed ls w) n = s.envelopesBefore w n := by
  rw [envelopesBefore, lines_feed, List.take_append_of_le_length hn, envelopesBefore]

/-- What a fetch leaves out stands before the offset. -/
theorem mem_envelopesBefore_length {e : Envelope}
    (he : e ∈ s.envelopesBefore w (s.lines w).length) :
    e ∈ s.envelopesBefore w (s.offset w) ∨ e ∈ (s.fetch w).envelopes := by
  rw [envelopesBefore, List.take_length, ← List.take_append_drop (s.offset w) (s.lines w),
    List.filterMap_append, List.mem_append] at he
  exact he

end StreamSettings

end Mailroom
