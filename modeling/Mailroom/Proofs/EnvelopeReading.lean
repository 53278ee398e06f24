/-
Which lines are read, and as which envelope.

The reader takes off the blanks around a line and allows for a few spellings of the version.
Beyond that it leaves no choice: the line has to be the one that the envelope is written on.

* `Text.dropFront?_eq_some_iff`, `Text.cut?_eq_some_iff` — what was taken off was there;
* `Envelope.ofFields?_eq_some_iff` — the fields that are read are those that are written;
* `Envelope.decodeChars?_eq_some_iff` — the lines that are read as an envelope;
* `Envelope.eq_of_decodeChars?_encodeChars` — a field that holds the delimiter makes one field
  too many, so the line of an envelope is never read as another one;
* `Envelope.decode?_encode_eq_ite` — what becomes of an envelope that is written and read;
* `Envelope.encode_of_decode?` — what becomes of a line that is read and written.
-/
import Mailroom.Proofs.EnvelopeLine
import Mailroom.Proofs.Text.Pieces

namespace Mailroom

namespace Text

theorem dropFront?_eq_some_iff {front cs rest : List Char} :
    dropFront? front cs = some rest ↔ cs = front ++ rest := by
  constructor
  · intro h
    rw [dropFront?] at h
    split at h
    · rename_i hfront
      obtain ⟨tail, rfl⟩ := List.isPrefixOf_iff_prefix.1 hfront
      rw [List.drop_left, Option.some.injEq] at h
      rw [h]
    · exact absurd h (by simp)
  · rintro rfl
    exact dropFront?_append front rest

theorem cut?_eq_some_iff {sep : Char} {cs before after : List Char} :
    cut? sep cs = some (before, after) ↔ cs = before ++ sep :: after ∧ sep ∉ before := by
  constructor
  · intro h
    induction cs generalizing before with
    | nil => exact absurd h (by simp [cut?])
    | cons c cs ih =>
      rw [cut?] at h
      split at h
      · rename_i hsep
        obtain ⟨rfl, rfl⟩ := Prod.mk.inj (Option.some.inj h)
        exact ⟨by rw [hsep]; rfl, List.not_mem_nil⟩
      · rename_i hsep
        obtain ⟨⟨front, rest⟩, hcut, heq⟩ := Option.map_eq_some_iff.1 h
        obtain ⟨rfl, rfl⟩ := Prod.mk.inj heq
        obtain ⟨rfl, hfront⟩ := ih hcut
        refine ⟨rfl, ?_⟩
        rw [List.mem_cons, not_or]
        exact ⟨Ne.symm hsep, hfront⟩
  · rintro ⟨rfl, hbefore⟩
    exact cut?_append hbefore after

theorem cut?_eq_none_iff {sep : Char} {cs : List Char} : cut? sep cs = none ↔ sep ∉ cs := by
  constructor
  · intro h hmem
    obtain ⟨before, after, rfl, hbefore⟩ := List.eq_append_cons_of_mem hmem
    rw [cut?_append hbefore] at h
    exact absurd h nofun
  · intro h
    cases hcut : cut? sep cs with
    | none => rfl
    | some parts =>
      obtain ⟨rfl, -⟩ := cut?_eq_some_iff.1 hcut
      exact absurd (List.mem_append_right _ List.mem_cons_self) h

end Text

namespace Envelope

/-! ### Fields -/

theorem ofFields?_eq_some_iff {fields : List (List Char)} {e : Envelope} :
    ofFields? fields = some e ↔
      fields = e.fieldChars ∧ e.id ≠ "" ∧ e.sender ≠ "" ∧ e.recipient ≠ "" := by
  constructor
  · intro h
    unfold ofFields? at h
    split at h
    · rename_i id sender recipient type priority convoy payload
      rw [Option.bind_eq_bind] at h
      split at h
      · exact absurd h (by simp)
      · rename_i hfilled
        simp only [Option.bind_eq_bind, Option.bind_eq_some_iff] at h
        obtain ⟨t, ht, p, hp, bytes, hbytes, text, htext, heq⟩ := h
        obtain rfl := Option.some.inj heq
        -- each field that was read is written as it was
        have htype : t.name.toList = type := by
          rw [MessageType.name_of_ofName? ht, String.toList_ofList]
        have hpriority : p.name.toList = priority := by
          rw [Priority.name_of_ofName? hp, String.toList_ofList]
        have hpayload : payloadChars text = payload := by
          rw [payloadChars, Text.encodeUtf8_of_decode? htext, Text.Base64.encode_eq_of_decode? hbytes]
        refine ⟨?_, ?_⟩
        · simp only [fieldChars, String.toList_ofList, htype, hpriority, hpayload]
        · simpa [not_or, and_assoc] using hfilled
    · exact absurd h (by simp)
  · rintro ⟨rfl, hid, hsender, hrecipient⟩
    exact ofFields?_fieldChars hid hsender hrecipient

theorem payloadChars_injective {p q : String} (h : payloadChars p = payloadChars q) : p = q := by
  have hbytes := congrArg Text.Base64.decode? h
  rw [payloadChars, payloadChars, Text.Base64.decode?_encode, Text.Base64.decode?_encode] at hbytes
  have htext := congrArg Text.decode? (Option.some.inj hbytes)
  rw [Text.decode?_encodeUtf8, Text.decode?_encodeUtf8] at htext
  exact Option.some.inj htext

theorem fieldChars_injective {e e' : Envelope} (h : e.fieldChars = e'.fieldChars) : e = e' := by
  cases e
  cases e'
  simp only [fieldChars, List.cons.injEq, and_true, String.toList_inj] at h
  obtain ⟨rfl, rfl, rfl, htype, hpriority, rfl, hpayload⟩ := h
  obtain rfl := MessageType.name_injective htype
  obtain rfl := Priority.name_injective hpriority
  obtain rfl := payloadChars_injective hpayload
  rfl

/-! ### Lines -/

/-- The spellings of the version that are read: a plus sign or none, zeros, and the digit. -/
def SpellsVersion (version : List Char) : Prop :=
  ∃ sign zeros, (sign = [] ∨ sign = ['+']) ∧ version = sign ++ (List.replicate zeros '0' ++ ['1'])

theorem unsigned?_eq_wireVersion_iff {version : List Char} :
    Text.unsigned? Text.maxWord version = some wireVersion ↔ SpellsVersion version :=
  Text.unsigned?_eq_some_iff (by decide) (by decide)

theorem SpellsVersion.delimiter_not_mem {version : List Char} (h : SpellsVersion version) :
    delimiter ∉ version := by
  obtain ⟨sign, zeros, hsign, rfl⟩ := h
  rw [List.mem_append, List.mem_append, not_or, not_or]
  refine ⟨?_, ?_, by decide⟩
  · rcases hsign with rfl | rfl <;> decide
  · intro hzero
    exact absurd (List.eq_of_mem_replicate hzero) (by decide)

/-- The line of an envelope, with a spelling of the version. -/
def lineChars (version : List Char) (e : Envelope) : List Char :=
  marker ++ version ++ delimiter :: List.intercalate [delimiter] e.fieldChars

/-- The lines that are read as an envelope are those of the envelope. -/
theorem decodeChars?_eq_some_iff {line : List Char} {e : Envelope} : decodeChars? line = some e ↔
    e.Plain ∧ ∃ version, SpellsVersion version ∧ Text.trim line = e.lineChars version := by
  constructor
  · intro h
    simp only [decodeChars?, Option.bind_eq_bind, Option.bind_eq_some_iff] at h
    obtain ⟨rest, hrest, ⟨version, fields⟩, hcut, n, hn, h⟩ := h
    dsimp only at hn h
    split at h
    · exact absurd h (by simp)
    · rename_i hone
      obtain rfl := Decidable.of_not_not hone
      obtain ⟨hfields, hid, hsender, hrecipient⟩ := ofFields?_eq_some_iff.1 h
      have hsafe : ∀ field ∈ e.fieldChars, delimiter ∉ field := by
        rw [← hfields]
        exact fun field hfield => Text.not_mem_of_mem_splitOn hfield
      simp only [fieldChars, List.forall_mem_cons] at hsafe
      obtain ⟨hsafe_id, hsafe_sender, hsafe_recipient, -, -, hsafe_convoy, -⟩ := hsafe
      refine ⟨⟨hid, hsender, hrecipient, hsafe_id, hsafe_sender, hsafe_recipient, hsafe_convoy⟩,
        version, unsigned?_eq_wireVersion_iff.1 hn, ?_⟩
      rw [Text.dropFront?_eq_some_iff.1 hrest, (Text.cut?_eq_some_iff.1 hcut).1, lineChars, ← hfields,
        List.intercalate_splitOn, List.append_assoc]
  · rintro ⟨hplain, version, hversion, hline⟩
    rw [decodeChars?_of_trim_eq (unsigned?_eq_wireVersion_iff.2 hversion)
      hversion.delimiter_not_mem hline, ← decodeChars?_encodeChars_eq, decodeChars?_encodeChars hplain]

/-- What is read from the line of an envelope is this envelope. -/
theorem eq_of_decodeChars?_encodeChars {e e' : Envelope}
    (h : decodeChars? e.encodeChars = some e') : e' = e := by
  have hread := h
  rw [decodeChars?_encodeChars_eq, ofFields?_eq_some_iff] at hread
  -- seven fields were written and seven are read, so none of them was cut
  have hlength : ((List.intercalate [delimiter] e.fieldChars).splitOn delimiter).length =
      e.fieldChars.length := by
    rw [hread.1]
    rfl
  have hsafe := Text.not_mem_of_length_splitOn (by simp [fieldChars]) hlength
  have hsplit := List.splitOn_intercalate delimiter hsafe (by simp [fieldChars])
  exact (fieldChars_injective (hsplit.symm.trans hread.1)).symm

theorem eq_of_decode?_encode {e e' : Envelope} (h : decode? e.encode = some e') : e' = e := by
  rw [decode?, encode, String.toList_ofList] at h
  exact eq_of_decodeChars?_encodeChars h

theorem plain_iff {e : Envelope} : e.Plain ↔ e.id ≠ "" ∧ e.sender ≠ "" ∧ e.recipient ≠ "" ∧
    delimiter ∉ e.id.toList ∧ delimiter ∉ e.sender.toList ∧ delimiter ∉ e.recipient.toList ∧
    delimiter ∉ e.convoy.toList := by
  constructor
  · intro h
    exact ⟨h.id_ne, h.sender_ne, h.recipient_ne, h.id_safe, h.sender_safe, h.recipient_safe,
      h.convoy_safe⟩
  · rintro ⟨hid, hsender, hrecipient, hid', hsender', hrecipient', hconvoy'⟩
    exact ⟨hid, hsender, hrecipient, hid', hsender', hrecipient', hconvoy'⟩

instance (e : Envelope) : Decidable e.Plain := decidable_of_iff' _ plain_iff

/-- An envelope that is written and read again comes back if its fields allow for it, and is
refused if they do not: it never comes back as another one. -/
theorem decode?_encode_eq_ite (e : Envelope) :
    decode? e.encode = if e.Plain then some e else none := by
  rw [decode?, encode, String.toList_ofList]
  split
  · exact decodeChars?_encodeChars ‹_›
  · rename_i hplain
    cases h : decodeChars? e.encodeChars with
    | none => rfl
    | some e' =>
      have hread := (decodeChars?_eq_some_iff.1 h).1
      rw [eq_of_decodeChars?_encodeChars h] at hread
      exact absurd hread hplain

/-- How a line is written that is read as an envelope. -/
structure Spells (line : String) (e : Envelope) : Prop where
  /-- it looks like an envelope -/
  marked : looksLikeEnvelope line.toList = true
  /-- blanks aside, it is the line of the envelope with a spelling of the version -/
  canonical : ∃ version rest, SpellsVersion version ∧
    Text.trim line.toList = marker ++ version ++ delimiter :: rest ∧
    e.encode.toList = marker ++ '1' :: delimiter :: rest ∧
    rest.splitOn delimiter = e.fieldChars

/-- Two lines differ in blanks around them and in the spelling of the version only. -/
def AgreeUpToSpelling (line other : String) : Prop :=
  ∃ version version' rest, SpellsVersion version ∧ SpellsVersion version' ∧
    Text.trim line.toList = marker ++ version ++ delimiter :: rest ∧
    Text.trim other.toList = marker ++ version' ++ delimiter :: rest

theorem marked_of_trim_eq {line rest : List Char} (h : Text.trim line = marker ++ rest) :
    looksLikeEnvelope line = true := by
  -- what is at the front once both ends are trimmed is there once the front is trimmed
  obtain ⟨after, hafter⟩ := Text.exists_trimEnd_append (Text.trimStart line)
  rw [looksLikeEnvelope, List.isPrefixOf_iff_prefix, ← hafter]
  refine List.prefix_append_of_prefix ?_
  show marker <+: Text.trim line
  rw [h]
  exact List.prefix_append _ _

/-- Whatever is read as an envelope looks like one. -/
theorem looksLikeEnvelope_of_decodeChars? {line : List Char} {e : Envelope}
    (h : decodeChars? line = some e) : looksLikeEnvelope line = true := by
  obtain ⟨-, version, -, hline⟩ := decodeChars?_eq_some_iff.1 h
  rw [lineChars, List.append_assoc] at hline
  exact marked_of_trim_eq hline

/-- A line that is read as an envelope is written like the line of the envelope, and like every
other line that is read so. -/
theorem encode_of_decode? {line : String} {e : Envelope} (h : decode? line = some e) :
    Spells line e ∧ ∀ other, decode? other = some e → AgreeUpToSpelling line other := by
  obtain ⟨hplain, version, hversion, hline⟩ := decodeChars?_eq_some_iff.1 h
  refine ⟨⟨?_, version, _, hversion, hline, ?_, ?_⟩, ?_⟩
  · exact looksLikeEnvelope_of_decodeChars? h
  · rw [encode, String.toList_ofList]
    rfl
  · exact List.splitOn_intercalate delimiter (delimiter_not_mem_fieldChars hplain)
      (by simp [fieldChars])
  · intro other hother
    obtain ⟨-, version', hversion', hother⟩ := decodeChars?_eq_some_iff.1 hother
    exact ⟨version, version', _, hversion, hversion', hline, hother⟩

/-- A line with all that is allowed for, and the plain one. -/
theorem encode_of_decode?_padded :
    ∃ e, decode? "\t AIMAIL:+001|m|a|b|request|low|none|aGk=\r\n" = some e ∧
      decode? "AIMAIL:1|m|a|b|request|low|none|aGk=" = some e ∧
      Spells "\t AIMAIL:+001|m|a|b|request|low|none|aGk=\r\n" e ∧
      AgreeUpToSpelling "\t AIMAIL:+001|m|a|b|request|low|none|aGk=\r\n"
        "AIMAIL:1|m|a|b|request|low|none|aGk=" := by
  have h : decode? "\t AIMAIL:+001|m|a|b|request|low|none|aGk=\r\n" =
      some ⟨"m", "a", "b", .request, .low, "none", "hi"⟩ := by decide +kernel
  have hplain : decode? "AIMAIL:1|m|a|b|request|low|none|aGk=" =
      some ⟨"m", "a", "b", .request, .low, "none", "hi"⟩ := by decide +kernel
  exact ⟨_, h, hplain, (encode_of_decode? h).1, (encode_of_decode? h).2 _ hplain⟩

end Envelope

end Mailroom
