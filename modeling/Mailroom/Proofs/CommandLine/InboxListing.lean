/-
How many lines a printed inbox takes.

Every line that is printed ends with a line feed, so the lines of a printed inbox are those that
are meant and one more for each line feed in what they show. Of a payload only the beginning of
its first line is shown; id, sender and recipient are shown as they are.

* `feeds` — the number of line feeds in a text;
* `feeds_report` — those in printed lines;
* `feeds_line` — those in the line of a message;
* `feeds_listing` — those in a printed inbox;
* `Inbox.isLinewise_iff` — the inboxes that take one line for each message.
-/
import Mailroom.CommandLine.Listing
import Mailroom.Proofs.EnvelopeBreaks
import Mathlib.Algebra.BigOperators.Group.List.Basic
import Mathlib.Algebra.GroupWithZero.Nat

namespace Mailroom

/-- The number of line feeds in a text. -/
def feeds (s : String) : Nat := s.toList.count '\n'

theorem feeds_append (s t : String) : feeds (s ++ t) = feeds s + feeds t := by
  rw [feeds, String.toList_append, List.count_append]
  rfl

theorem feeds_eq_zero_iff {s : String} : feeds s = 0 ↔ '\n' ∉ s.toList := List.count_eq_zero

theorem feeds_report (lines : List String) :
    feeds (report lines) = (lines.map fun line => feeds line + 1).sum := by
  induction lines with
  | nil => rfl
  | cons line lines ih =>
    have hcons : report (line :: lines) = line ++ "\n" ++ report lines := String.join_cons
    rw [hcons, feeds_append, feeds_append, ih, List.map_cons, List.sum_cons]
    rfl

theorem feeds_toString (n : Nat) : feeds (toString n) = 0 := by
  rw [feeds_eq_zero_iff, Nat.toString_eq_repr, Nat.toList_repr]
  intro h
  exact absurd (Nat.isDigit_of_mem_toDigits (by decide) (by decide) h) (by decide)

/-! ### The beginning of a payload -/

theorem feeds_preview (payload : String) : feeds (preview payload) = 0 := by
  rw [feeds_eq_zero_iff, preview, String.toList_ofList]
  intro h
  have hfirst := List.mem_of_mem_take h
  cases hlines : Text.lines payload.toList with
  | nil =>
    rw [hlines] at hfirst
    exact List.not_mem_nil hfirst
  | cons line rest =>
    rw [hlines] at hfirst
    exact Text.feed_not_mem_of_mem_lines (hlines ▸ List.mem_cons_self) hfirst

/-! ### Messages and inboxes -/

theorem feeds_line (m : Message) :
    feeds m.line = feeds m.id + feeds m.sender + feeds m.recipient := by
  have hmark : feeds m.status.mark = 0 := by cases m.status <;> rfl
  have hpriority : feeds m.priority.name = 0 := by cases m.priority <;> rfl
  have htype : feeds m.type.name = 0 := by cases m.type <;> rfl
  have hopen : feeds " [" = 0 := rfl
  have hclose : feeds "] " = 0 := rfl
  have hgap : feeds "  " = 0 := rfl
  have harrow : feeds " -> " = 0 := rfl
  simp only [Message.line, feeds_append, feeds_preview, hmark, hpriority, htype, hopen, hclose,
    hgap, harrow]
  omega

/-- Besides the line feeds of what is shown, a printed inbox has one for its first line and one for
each message, or for the word that there is none. -/
theorem feeds_listing (x : Inbox) : feeds (report x.listing) = feeds x.agentId + 1 +
    if x.messages.isEmpty then 1
    else (x.messages.map fun m => feeds m.id + feeds m.sender + feeds m.recipient + 1).sum := by
  have hhead : feeds ("Inbox for " ++ x.agentId ++ " (" ++ toString x.total ++ " message(s), " ++
      toString x.unread ++ " unread)") = feeds x.agentId := by
    have hinbox : feeds "Inbox for " = 0 := rfl
    have hopen : feeds " (" = 0 := rfl
    have hmessages : feeds " message(s), " = 0 := rfl
    have hunread : feeds " unread)" = 0 := rfl
    simp only [feeds_append, feeds_toString, hinbox, hopen, hmessages, hunread]
    omega
  rw [feeds_report, Inbox.listing, List.map_cons, List.sum_cons, hhead]
  congr 1
  split
  · rfl
  · have hgap : feeds "  " = 0 := rfl
    rw [List.map_map]
    refine congrArg List.sum (List.map_congr_left fun m _ => ?_)
    show feeds ("  " ++ m.line) + 1 = _
    rw [feeds_append, hgap, feeds_line, Nat.zero_add]

/-- After the line of the agent, a printed inbox has one line for each message, or one line if
there is none. -/
def Inbox.IsLinewise (x : Inbox) : Prop :=
  feeds (report x.listing) = feeds x.agentId + 1 + max 1 x.messages.length

theorem Inbox.isLinewise_iff (x : Inbox) : x.IsLinewise ↔
    ∀ m ∈ x.messages, feeds m.id + feeds m.sender + feeds m.recipient = 0 := by
  have hsum : (x.messages.map fun m => feeds m.id + feeds m.sender + feeds m.recipient + 1).sum =
      (x.messages.map fun m => feeds m.id + feeds m.sender + feeds m.recipient).sum +
        x.messages.length := by
    rw [List.sum_map_add, List.map_const', List.sum_replicate_nat, Nat.mul_one]
  rw [IsLinewise, feeds_listing, hsum, ← List.forall_mem_map (P := fun n => n = 0),
    ← List.sum_eq_zero_iff_forall_eq_nat]
  cases x.messages with
  | nil => simp
  | cons m ms =>
    simp only [List.isEmpty_cons, List.length_cons, Bool.false_eq_true, if_false]
    omega

theorem feeds_heading {m : Message} (h : ∀ field ∈ m.row.heading.fields, '\n' ∉ field.toList) :
    feeds m.id + feeds m.sender + feeds m.recipient = 0 := by
  simp only [Heading.fields, List.forall_mem_cons, ← feeds_eq_zero_iff] at h
  obtain ⟨hid, hsender, hrecipient, -⟩ := h
  have hid : feeds m.id = 0 := hid
  have hsender : feeds m.sender = 0 := hsender
  have hrecipient : feeds m.recipient = 0 := hrecipient
  omega

end Mailroom
