/-
An envelope is read back from its line.

* `Envelope.Plain` — the fields that are written as they are can be: none of them holds
  the delimiter, and id, sender and recipient are there;
* `trim_encodeChars` — a line neither begins nor ends with a blank, so that nothing of it
  is lost when blanks are taken off;
* `decodeChars?_of_trim_eq` — blanks and the version once taken off, the fields decide;
* `decode?_encode` — the envelope of a line is the one that was written.
-/
import Mailroom.Envelope
import Mailroom.Proofs.Text.Encodings
import Mailroom.Proofs.Text.Numeral

namespace Mailroom

namespace Text

theorem dropFront?_append (front rest : List Char) : dropFront? front (front ++ rest) = some rest := by
  simp [dropFront?]

theorem cut?_append {sep : Char} {before : List Char} (h : sep ∉ before) (after : List Char) :
    cut? sep (before ++ sep :: after) = some (before, after) := by
  induction before with
  | nil => simp [cut?]
  | cons c cs ih =>
    rw [List.mem_cons, not_or] at h
    rw [List.cons_append, cut?, if_neg (Ne.symm h.1), ih h.2]
    rfl

theorem trim_subset (cs : List Char) : trim cs ⊆ cs := by
  intro c hc
  have hend : c ∈ (trimStart cs).reverse :=
    (List.dropWhile_sublist isBlank).subset (List.mem_reverse.1 hc)
  exact (List.dropWhile_sublist isBlank).subset (List.mem_reverse.1 hend)

theorem isBlank_of_isDigit {c : Char} (h : c.isDigit = true) : isBlank c = false := by
  obtain ⟨hlow, hhigh⟩ := toNat_of_isDigit h
  refine Bool.eq_false_iff.2 fun hblank => ?_
  simp only [isBlank, Bool.or_eq_true, Bool.and_eq_true, decide_eq_true_eq, beq_iff_eq] at hblank
  omega

/-- A text that neither begins nor ends with a blank stays as it is. -/
theorem trim_eq_self {cs : List Char} (hfirst : ∀ c ∈ cs.head?, isBlank c = false)
    (hlast : ∀ c ∈ cs.getLast?, isBlank c = false) : trim cs = cs := by
  have hstart : trimStart cs = cs := by
    cases cs with
    | nil => rfl
    | cons c cs => simp [trimStart, hfirst c rfl]
  have hend : trimEnd cs = cs := by
    rcases List.eq_nil_or_concat cs with rfl | ⟨front, c, rfl⟩
    · rfl
    · have hc := hlast c (by simp)
      simp [trimEnd, hc]
  rw [trim, hstart, hend]

end Text

namespace Envelope

/-- The fields that are written as they are can be read back. -/
structure Plain (e : Envelope) : Prop where
  id_ne : e.id ≠ ""
  sender_ne : e.sender ≠ ""
  recipient_ne : e.recipient ≠ ""
  id_safe : delimiter ∉ e.id.toList
  sender_safe : delimiter ∉ e.sender.toList
  recipient_safe : delimiter ∉ e.recipient.toList
  convoy_safe : delimiter ∉ e.convoy.toList

theorem delimiter_not_mem_payloadChars (payload : String) :
    delimiter ∉ payloadChars payload := by
  intro h
  exact Text.Base64.forall_mem_encode (p := fun c => c ≠ delimiter) (by decide) (by decide) _ _ h rfl

theorem delimiter_not_mem_fieldChars {e : Envelope} (h : e.Plain) :
    ∀ field ∈ e.fieldChars, delimiter ∉ field := by
  have htype : delimiter ∉ e.type.name.toList := by cases e.type <;> decide
  have hpriority : delimiter ∉ e.priority.name.toList := by cases e.priority <;> decide
  simp only [fieldChars, List.forall_mem_cons]
  exact ⟨h.id_safe, h.sender_safe, h.recipient_safe, htype, hpriority, h.convoy_safe,
    delimiter_not_mem_payloadChars _, by simp⟩

theorem head?_encodeChars (e : Envelope) : e.encodeChars.head? = some 'A' := rfl

/-- The last character of a line belongs to the payload, or is the delimiter before it. -/
theorem isBlank_getLast?_encodeChars (e : Envelope) :
    ∀ c ∈ e.encodeChars.getLast?, Text.isBlank c = false := by
  -- an empty payload leaves the delimiter as the last character
  obtain ⟨front, hfront⟩ : ∃ front,
      e.encodeChars = front ++ delimiter :: payloadChars e.payload := by
    refine ⟨marker ++ Nat.toDigits 10 wireVersion ++ delimiter :: List.intercalate [delimiter]
      [e.id.toList, e.sender.toList, e.recipient.toList, e.type.name.toList,
        e.priority.name.toList, e.convoy.toList], ?_⟩
    simp [encodeChars, fieldChars]
  intro c hc
  have hmem : c ∈ delimiter :: payloadChars e.payload := by
    rw [hfront, List.getLast?_append, List.getLast?_cons, Option.some_or, ← List.getLast?_cons] at hc
    exact List.mem_of_getLast? hc
  rcases List.mem_cons.1 hmem with rfl | hmem
  · decide
  · exact Text.Base64.forall_mem_encode (p := fun c => Text.isBlank c = false) (by decide)
      (by decide) _ c hmem

theorem trim_encodeChars (e : Envelope) : Text.trim e.encodeChars = e.encodeChars := by
  refine Text.trim_eq_self ?_ e.isBlank_getLast?_encodeChars
  intro c hc
  rw [head?_encodeChars] at hc
  obtain rfl := Option.some.inj hc
  decide

theorem ofFields?_fieldChars {e : Envelope} (hid : e.id ≠ "") (hsender : e.sender ≠ "")
    (hrecipient : e.recipient ≠ "") : ofFields? e.fieldChars = some e := by
  have hid : e.id.toList ≠ [] := by simpa using hid
  have hsender : e.sender.toList ≠ [] := by simpa using hsender
  have hrecipient : e.recipient.toList ≠ [] := by simpa using hrecipient
  simp [fieldChars, ofFields?, hid, hsender, hrecipient, MessageType.ofName?_name,
    Priority.ofName?_name, payloadChars, Text.Base64.decode?_encode, Text.decode?_encodeUtf8]

/-- A line with any spelling of the version is read by its fields. -/
theorem decodeChars?_of_trim_eq {line version fields : List Char}
    (hversion : Text.unsigned? Text.maxWord version = some wireVersion)
    (hsafe : delimiter ∉ version)
    (hline : Text.trim line = marker ++ version ++ delimiter :: fields) :
    decodeChars? line = ofFields? (fields.splitOn delimiter) := by
  -- each step of reading takes off what the writer put there
  have hfront : Text.dropFront? marker (marker ++ version ++ delimiter :: fields) =
      some (version ++ delimiter :: fields) := by
    rw [List.append_assoc, Text.dropFront?_append]
  have hcut : Text.cut? delimiter (version ++ delimiter :: fields) = some (version, fields) :=
    Text.cut?_append hsafe fields
  rw [decodeChars?, hline, hfront]
  simp only [bind, Option.bind, hcut, hversion, ne_eq, not_true_eq_false, if_false]

/-- The line of any envelope is read by its fields. -/
theorem decodeChars?_encodeChars_eq (e : Envelope) : decodeChars? e.encodeChars =
    ofFields? ((List.intercalate [delimiter] e.fieldChars).splitOn delimiter) :=
  decodeChars?_of_trim_eq (Text.unsigned?_toDigits (by decide)) (by decide) e.trim_encodeChars

theorem decodeChars?_encodeChars {e : Envelope} (h : e.Plain) :
    decodeChars? e.encodeChars = some e := by
  have hsplit : (List.intercalate [delimiter] e.fieldChars).splitOn delimiter = e.fieldChars :=
    List.splitOn_intercalate delimiter (delimiter_not_mem_fieldChars h) (by simp [fieldChars])
  rw [decodeChars?_encodeChars_eq, hsplit]
  exact ofFields?_fieldChars h.id_ne h.sender_ne h.recipient_ne

theorem decode?_encode {e : Envelope} (h : e.Plain) : decode? e.encode = some e := by
  rw [decode?, encode, String.toList_ofList, decodeChars?_encodeChars h]

end Envelope

end Mailroom
