/-
Line breaks in the fields of an envelope.

The reader of envelopes cuts a text at the delimiter and takes off the blanks around it. So no
field holds the delimiter, but a text of several lines is read as well, and its line breaks go
into the fields that are written as they are.

* `Heading` — these fields: id, sender, recipient and convoy;
* `isWireSafe_iff` — what a field must not hold to be written as it is;
* `hasBreak_lineChars` — the line of an envelope is broken where one of these fields is;
* `delimiter_not_mem_of_decode?` — no field that is read holds the delimiter;
* `isSafe_iff_of_decode?` — so what is read can be written again as it is if and only if the
  text, without the blanks around it, was one line.
-/
import Mailroom.Proofs.EnvelopeReading
import Mailroom.Store.Basic

namespace Mailroom

/-! ### The fields that are written as they are -/

/-- The fields of a message that are written on a line as they are. -/
structure Heading where
  id : String
  sender : String
  recipient : String
  convoy : String
  deriving DecidableEq, Repr

/-- These fields of a row. -/
def MessageRow.heading (r : MessageRow) : Heading := ⟨r.id, r.sender, r.recipient, r.convoy⟩

/-- These fields of an envelope. -/
def Envelope.heading (e : Envelope) : Heading := ⟨e.id, e.sender, e.recipient, e.convoy⟩

namespace Heading

/-- The fields, in the order in which they are written. -/
def fields (h : Heading) : List String := [h.id, h.sender, h.recipient, h.convoy]

/-- Every field can be written as it is. -/
def IsSafe (h : Heading) : Prop := ∀ field ∈ h.fields, isWireSafe field = true

instance (h : Heading) : Decidable h.IsSafe := inferInstanceAs (Decidable (∀ _ ∈ _, _))

end Heading

/-! ### Line breaks -/

/-- A character that ends a line. -/
def IsBreak (c : Char) : Prop := c = '\n' ∨ c = '\r'

instance : DecidablePred IsBreak := fun _ => inferInstanceAs (Decidable (_ ∨ _))

/-- Whether there is a line break in a text. -/
def HasBreak (cs : List Char) : Prop := ∃ c ∈ cs, IsBreak c

-- found by name, since a search may settle for going through all characters there are
instance (cs : List Char) : Decidable (HasBreak cs) := List.decidableBEx IsBreak cs

theorem hasBreak_append {cs ds : List Char} : HasBreak (cs ++ ds) ↔ HasBreak cs ∨ HasBreak ds := by
  simp only [HasBreak, List.mem_append, or_and_right, exists_or]

theorem hasBreak_cons {c : Char} {cs : List Char} :
    HasBreak (c :: cs) ↔ IsBreak c ∨ HasBreak cs := by
  simp only [HasBreak, List.mem_cons, exists_eq_or_imp]

theorem isWireSafe_iff {field : String} :
    isWireSafe field = true ↔ delimiter ∉ field.toList ∧ ¬ HasBreak field.toList := by
  simp only [isWireSafe, List.all_eq_true, Bool.and_eq_true, bne_iff_ne, HasBreak, IsBreak,
    not_exists, not_and, not_or]
  constructor
  · intro h
    exact ⟨fun hmem => (h _ hmem).1.1 rfl, fun c hc => ⟨(h c hc).1.2, (h c hc).2⟩⟩
  · rintro ⟨hdelimiter, hbreak⟩ c hc
    exact ⟨⟨fun heq => hdelimiter (heq ▸ hc), (hbreak c hc).1⟩, (hbreak c hc).2⟩

theorem Heading.IsSafe.feed_not_mem {h : Heading} (hsafe : h.IsSafe) :
    ∀ field ∈ h.fields, '\n' ∉ field.toList :=
  fun field hfield hmem => (isWireSafe_iff.1 (hsafe field hfield)).2 ⟨'\n', hmem, .inl rfl⟩

namespace Envelope

theorem not_hasBreak_payloadChars (payload : String) : ¬ HasBreak (payloadChars payload) := by
  rintro ⟨c, hc, hbreak⟩
  exact Text.Base64.forall_mem_encode (p := fun c => ¬ IsBreak c) (by decide) (by decide) _ c hc
    hbreak

theorem SpellsVersion.not_hasBreak {version : List Char} (h : SpellsVersion version) :
    ¬ HasBreak version := by
  obtain ⟨sign, zeros, hsign, rfl⟩ := h
  rw [hasBreak_append, hasBreak_append, not_or, not_or]
  refine ⟨?_, ?_, by decide⟩
  · rcases hsign with rfl | rfl <;> decide
  · rintro ⟨c, hc, hbreak⟩
    rw [List.eq_of_mem_replicate hc] at hbreak
    exact absurd hbreak (by decide)

theorem hasBreak_intercalate {parts : List (List Char)} :
    HasBreak (List.intercalate [delimiter] parts) ↔ ∃ part ∈ parts, HasBreak part := by
  have hne : ∀ c, IsBreak c → c ≠ delimiter := by
    rintro c hbreak rfl
    exact absurd hbreak (by decide)
  constructor
  · rintro ⟨c, hc, hbreak⟩
    obtain ⟨part, hpart, hmem⟩ := (Text.mem_intercalate (hne c hbreak)).1 hc
    exact ⟨part, hpart, c, hmem, hbreak⟩
  · rintro ⟨part, hpart, c, hmem, hbreak⟩
    exact ⟨c, (Text.mem_intercalate (hne c hbreak)).2 ⟨part, hpart, hmem⟩, hbreak⟩

/-- What stands on the line besides these fields has no line breaks. -/
theorem hasBreak_lineChars {version : List Char} {e : Envelope} (h : SpellsVersion version) :
    HasBreak (e.lineChars version) ↔ ∃ field ∈ e.heading.fields, HasBreak field.toList := by
  have hmarker : ¬ HasBreak marker := by decide
  have hdelimiter : ¬ IsBreak delimiter := by decide
  have htype : ¬ HasBreak e.type.name.toList := by cases e.type <;> decide
  have hpriority : ¬ HasBreak e.priority.name.toList := by cases e.priority <;> decide
  have hpayload := not_hasBreak_payloadChars e.payload
  rw [lineChars, hasBreak_append, hasBreak_append, hasBreak_cons, hasBreak_intercalate]
  simp only [fieldChars, Heading.fields, heading, List.mem_cons, List.not_mem_nil, exists_eq_or_imp,
    exists_eq_left, hmarker, h.not_hasBreak, hdelimiter, htype, hpriority, hpayload, false_or,
    or_false]

theorem delimiter_not_mem_of_decode? {text : String} {e : Envelope} (h : decode? text = some e) :
    ∀ field ∈ e.heading.fields, delimiter ∉ field.toList := by
  obtain ⟨hplain, -⟩ := decodeChars?_eq_some_iff.1 h
  simp only [Heading.fields, heading, List.forall_mem_cons]
  exact ⟨hplain.id_safe, hplain.sender_safe, hplain.recipient_safe, hplain.convoy_safe, by simp⟩

/-- What is in these fields was in the text, within the blanks around it. -/
theorem mem_trim_of_decode? {text field : String} {e : Envelope} (h : decode? text = some e)
    (hfield : field ∈ e.heading.fields) {c : Char} (hc : c ∈ field.toList) :
    c ∈ Text.trim text.toList := by
  have hne : c ≠ delimiter := by
    rintro rfl
    exact delimiter_not_mem_of_decode? h field hfield hc
  have hchars : field.toList ∈ e.fieldChars := by
    simp only [Heading.fields, heading, List.mem_cons, List.not_mem_nil, or_false] at hfield
    rcases hfield with rfl | rfl | rfl | rfl <;> simp [fieldChars]
  obtain ⟨-, version, -, hline⟩ := decodeChars?_eq_some_iff.1 h
  rw [hline, lineChars]
  refine List.mem_append_right _ (List.mem_cons_of_mem _ ?_)
  exact (Text.mem_intercalate hne).2 ⟨field.toList, hchars, hc⟩

/-- What is read from a text has line breaks in these fields exactly if there are any within the
text. -/
theorem isSafe_iff_of_decode? {text : String} {e : Envelope} (h : decode? text = some e) :
    e.heading.IsSafe ↔ ¬ HasBreak (Text.trim text.toList) := by
  obtain ⟨-, version, hversion, hline⟩ := decodeChars?_eq_some_iff.1 h
  rw [hline, hasBreak_lineChars hversion]
  constructor
  · rintro hsafe ⟨field, hfield, hbreak⟩
    exact (isWireSafe_iff.1 (hsafe field hfield)).2 hbreak
  · intro hnone field hfield
    exact isWireSafe_iff.2 ⟨delimiter_not_mem_of_decode? h field hfield,
      fun hbreak => hnone ⟨field, hfield, hbreak⟩⟩

end Envelope

end Mailroom
