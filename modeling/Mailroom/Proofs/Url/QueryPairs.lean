/-
The pairs of a query, as the other side reads them.

A server cuts a query at the ampersands and each piece at its first equals sign, takes a plus sign
for a blank and undoes the percent-encoding. Read in this way a pair that was added to a query
stands behind all that were there, character for character.

* `Text.Percent.decode_formEncode` — an encoded text is read as it was;
* `Url.queryPairs` — the pairs of a query;
* `queryPairs_appendPair` — one more pair;
* `query_eq_of_render_eq` — addresses that differ in their queries are written differently.
-/
import Mailroom.Proofs.EnvelopeReading
import Mailroom.Proofs.Text.Percent
import Mailroom.Url.Basic

namespace Mailroom

namespace Text.Percent

/-- A text as it stands in a query, with a blank for each plus sign. -/
def plusToBlank (cs : List Char) : List Char := cs.map fun c => if c = '+' then ' ' else c

/-- What a byte of a name or a value is written as. -/
def formByte (b : UInt8) : List Char := if b = 32 then ['+'] else encodeUnless formKeep b

theorem formEncode_eq (s : List Char) :
    formEncode s = (encodeUtf8 (String.ofList s)).flatMap formByte := rfl

/-- The characters with a meaning of their own in a query, besides the percent sign. -/
def IsQuerySign (c : Char) : Prop := c = '+' ∨ c = '&' ∨ c = '='

instance (c : Char) : Decidable (IsQuerySign c) := inferInstanceAs (Decidable (_ ∨ _))

theorem not_isQuerySign_hexDigit {n : Nat} (h : n < 16) : ¬ IsQuerySign (hexDigit n) := by
  have key : ∀ n < 16, ¬ IsQuerySign (hexDigit n) := by decide
  exact key n h

theorem formKeep_eq_true {c : Char} (h : formKeep c = true) : ¬ IsQuerySign c := by
  rintro (rfl | rfl | rfl)
  all_goals exact absurd h (by decide)

/-- No character with a meaning of its own in a query stands in an encoded byte. -/
theorem not_isQuerySign_of_mem {b : UInt8} {c : Char} (h : c ∈ encodeUnless formKeep b) :
    ¬ IsQuerySign c := by
  obtain ⟨-, -, hkept⟩ | rfl | ⟨n, hn, rfl⟩ := mem_encodeUnless h
  · exact formKeep_eq_true hkept
  · decide
  · exact not_isQuerySign_hexDigit hn

theorem plusToBlank_append (cs ds : List Char) :
    plusToBlank (cs ++ ds) = plusToBlank cs ++ plusToBlank ds := List.map_append

theorem plusToBlank_eq_self {cs : List Char} (h : '+' ∉ cs) : plusToBlank cs = cs := by
  have hkept : ∀ c ∈ cs, (if c = '+' then ' ' else c) = c :=
    fun c hc => if_neg fun (heq : c = '+') => h (heq ▸ hc)
  rw [plusToBlank, List.map_congr_left hkept, List.map_id']

/-- Every byte is read as it was, whatever stands behind it. -/
theorem decode_formByte (b : UInt8) (rest : List Char) :
    decode (plusToBlank (formByte b) ++ rest) = b :: decode rest := by
  rw [formByte]
  split
  · rename_i hblank
    show decode (' ' :: rest) = _
    rw [decode_cons (by decide), hblank]
    rfl
  · have hplus : '+' ∉ encodeUnless formKeep b := fun h => not_isQuerySign_of_mem h (.inl rfl)
    rw [plusToBlank_eq_self hplus, decode_encodeUnless (by decide)]

theorem decode_formEncode (s : List Char) :
    decode (plusToBlank (formEncode s)) = encodeUtf8 (String.ofList s) := by
  rw [formEncode_eq]
  induction encodeUtf8 (String.ofList s) with
  | nil => rfl
  | cons b bytes ih => rw [List.flatMap_cons, plusToBlank_append, decode_formByte, ih]

/-- No separator of a query stands in a name or a value. -/
theorem ne_of_mem_formEncode {s : List Char} {c : Char} (h : c ∈ formEncode s) :
    c ≠ '&' ∧ c ≠ '=' := by
  obtain ⟨b, -, hb⟩ := List.mem_flatMap.1 h
  split at hb
  · rw [List.mem_singleton.1 hb]
    decide
  · have hsign := not_isQuerySign_of_mem hb
    exact ⟨fun h => hsign (.inr (.inl h)), fun h => hsign (.inr (.inr h))⟩

end Text.Percent

namespace Url

open Text.Percent

/-! ### Pairs -/

/-- The text that a name or a value of a query stands for. -/
def formText? (cs : List Char) : Option String := Text.decode? (decode (plusToBlank cs))

/-- The pair that a piece of a query stands for. -/
def pair? (piece : List Char) : Option (String × String) := do
  let (name, value) := (Text.cut? '=' piece).getD (piece, [])
  return (← formText? name, ← formText? value)

/-- The pairs of a query. -/
def pairsOf (query : List Char) : List (String × String) :=
  ((query.splitOn '&').filter (!·.isEmpty)).filterMap pair?

/-- The pairs of the query of an address. -/
def queryPairs (u : Url) : List (String × String) := pairsOf (u.query.getD "").toList

theorem formText?_formEncode (s : String) : formText? (formEncode s.toList) = some s := by
  rw [formText?, decode_formEncode, String.ofList_toList, Text.decode?_encodeUtf8]

theorem pairsOf_piece {piece : List Char} {name value : String}
    (h : piece = formEncode name.toList ++ '=' :: formEncode value.toList) (query : List Char) :
    pairsOf piece = [(name, value)] ∧
      pairsOf (query ++ '&' :: piece) = pairsOf query ++ [(name, value)] := by
  have hname : '=' ∉ formEncode name.toList := fun hmem => (ne_of_mem_formEncode hmem).2 rfl
  have hwhole : '&' ∉ piece := by
    rw [h, List.mem_append, List.mem_cons]
    rintro (hmem | heq | hmem)
    · exact (ne_of_mem_formEncode hmem).1 rfl
    · exact absurd heq (by decide)
    · exact (ne_of_mem_formEncode hmem).1 rfl
  have hpair : pair? piece = some (name, value) := by
    rw [pair?, h, Text.cut?_append hname]
    dsimp only [Option.getD_some]
    rw [formText?_formEncode, formText?_formEncode]
    rfl
  have hkept : [piece].filter (!·.isEmpty) = [piece] := by simp [h]
  have hone : pairsOf piece = [(name, value)] := by
    rw [pairsOf, List.splitOn_eq_singleton hwhole, hkept, List.filterMap_cons_some hpair]
    rfl
  refine ⟨hone, ?_⟩
  rw [← hone, pairsOf, List.splitOn, List.splitOnP_append_cons query piece (by simp),
    List.filter_append, List.filterMap_append]
  rfl

/-- A pair that is added is read behind those that were there. -/
theorem queryPairs_appendPair (u : Url) (name value : String) :
    (u.appendPair name value).queryPairs = u.queryPairs ++ [(name, value)] := by
  obtain ⟨scheme, authority, path, query, fragment⟩ := u
  have hpiece : (String.ofList (formEncode name.toList ++ '=' :: formEncode value.toList)).toList =
      formEncode name.toList ++ '=' :: formEncode value.toList := String.toList_ofList
  cases query with
  | none =>
    refine (pairsOf_piece hpiece []).1.trans ?_
    rfl
  | some q =>
    by_cases hq : q = ""
    · subst hq
      exact (pairsOf_piece hpiece []).1
    · have happend : (Url.mk scheme authority path (some q) fragment).appendPair name value =
          ⟨scheme, authority, path, some (q ++ "&" ++ String.ofList (formEncode name.toList ++
            '=' :: formEncode value.toList)), fragment⟩ := by
        unfold appendPair
        split
        · rename_i heq
          exact absurd heq nofun
        · rename_i heq
          exact absurd (Option.some.inj heq) hq
        · rename_i heq
          rw [Option.some.inj heq]
      rw [happend]
      show pairsOf (q ++ "&" ++ _).toList = pairsOf q.toList ++ _
      rw [String.toList_append, String.toList_append, List.append_assoc]
      exact (pairsOf_piece hpiece q.toList).2

/-! ### Addresses -/

/-- How the fragment of an address is written. -/
def fragmentText (u : Url) : String :=
  match u.fragment with
  | some f => "#" ++ f
  | none => ""

theorem render_withQuery (u : Url) (q : String) :
    ({ u with query := some q } : Url).withoutUser.render =
      u.scheme ++ ":" ++ u.withoutUser.front ++ u.path.render ++ ("?" ++ q) ++ u.fragmentText := rfl

/-- Addresses that differ in their queries only are written differently. -/
theorem query_eq_of_render_eq {u : Url} {q q' : String}
    (h : ({ u with query := some q } : Url).withoutUser.render =
      ({ u with query := some q' } : Url).withoutUser.render) : q = q' := by
  rw [render_withQuery, render_withQuery, ← String.toList_inj] at h
  simp only [String.toList_append] at h
  exact String.toList_inj.1 (List.append_cancel_left (List.append_cancel_left
    (List.append_cancel_right h)))

end Url

end Mailroom
