/-
Addresses as they are read from their written form.

A reader takes off the fragment behind the first number sign, then the query behind the first
question mark, and cuts the rest at the slashes. This gives back what was written if these marks
stand nowhere else.

* `HasNoMarks` — a text without marks;
* `Url.read?` — an address as a reader takes it apart;
* `Url.IsClear`, `read?_render` — an address with no marks in its parts is read as it was written.
-/
import Mailroom.Proofs.EnvelopeReading
import Mailroom.Proofs.Text.Pieces
import Mailroom.Url.Basic

namespace Mailroom

/-! ### Texts without marks -/

/-- Whether a text holds none of the marks that separate the parts of an address. -/
def HasNoMarks (cs : List Char) : Prop := ∀ c ∈ cs, c ≠ '/' ∧ c ≠ '?' ∧ c ≠ '#'

instance (cs : List Char) : Decidable (HasNoMarks cs) :=
  List.decidableBAll (fun c => c ≠ '/' ∧ c ≠ '?' ∧ c ≠ '#') cs

theorem HasNoMarks.append {cs ds : List Char} (hcs : HasNoMarks cs) (hds : HasNoMarks ds) :
    HasNoMarks (cs ++ ds) := List.forall_mem_append.2 ⟨hcs, hds⟩

namespace Url

/-! ### Reading -/

/-- The text up to a mark, and the text behind it if there is one. -/
def cutOff (mark : Char) (cs : List Char) : List Char × Option (List Char) :=
  match Text.cut? mark cs with
  | some (before, after) => (before, some after)
  | none => (cs, none)

/-- What a reader takes an address for. -/
structure Reading where
  scheme : String
  authority : String
  segments : List String
  query : Option String
  fragment : Option String

/-- Takes an address apart at its marks: a scheme with its colon, an authority behind two slashes,
and the segments of a path. -/
def read? (written : String) : Option Reading :=
  let (whole, fragment) := cutOff '#' written.toList
  let (path, query) := cutOff '?' whole
  match path.splitOn '/' with
  | scheme :: [] :: authority :: segments =>
    if scheme.getLast? = some ':' then
      some ⟨String.ofList scheme.dropLast, String.ofList authority, segments.map String.ofList,
        query.map String.ofList, fragment.map String.ofList⟩
    else none
  | _ => none

/-- How a part of an address is written behind its mark. -/
def behind (mark : Char) (part : Option String) : List Char :=
  match part with
  | some s => mark :: s.toList
  | none => []

theorem cutOff_append {mark : Char} {front : List Char} (h : mark ∉ front) (part : Option String) :
    cutOff mark (front ++ behind mark part) = (front, part.map String.toList) := by
  cases part with
  | none =>
    rw [behind, List.append_nil, cutOff, Text.cut?_eq_none_iff.2 h]
    rfl
  | some s =>
    rw [behind, cutOff, Text.cut?_append h]
    rfl

/-- An authority without the slashes in front of it. -/
def Authority.text (a : Authority) : String := String.ofList (a.render.toList.drop 2)

/-- Whether an address has an authority and a path of these segments, and marks stand only where
its parts meet. -/
structure IsClear (u : Url) (a : Authority) (parts : List String) : Prop where
  authority_eq : u.authority = some a
  path_eq : u.path = .segments parts
  ne_nil : parts ≠ []
  scheme : HasNoMarks u.scheme.toList
  authority : HasNoMarks a.text.toList
  parts : ∀ part ∈ parts, HasNoMarks part.toList
  query : ∀ q, u.query = some q → '#' ∉ q.toList

section

variable {u : Url} {a : Authority} {parts : List String}

/-- The texts between the slashes of an address. -/
def pieces (scheme : String) (authority : String) (parts : List String) : List (List Char) :=
  (scheme.toList ++ [':']) :: [] :: authority.toList :: parts.map String.toList

theorem toList_render_authority (a : Authority) :
    a.render.toList = '/' :: '/' :: a.text.toList := by
  rw [Authority.text, String.toList_ofList, Authority.render]
  simp only [String.toList_append]
  rfl

theorem toList_render_path (hne : parts ≠ []) :
    (Path.segments parts).render.toList = '/' :: ['/'].intercalate (parts.map String.toList) := by
  obtain ⟨p, ps, rfl⟩ := List.exists_cons_of_ne_nil hne
  rw [Path.render, String.toList_append, String.toList_intercalate]
  · rfl
  · exact nofun

theorem toList_render (h : u.IsClear a parts) :
    u.render.toList = ['/'].intercalate (pieces u.scheme a.text parts) ++ behind '?' u.query ++
      behind '#' u.fragment := by
  obtain ⟨scheme, authority, path, query, fragment⟩ := u
  obtain rfl : authority = some a := h.authority_eq
  obtain rfl : path = .segments parts := h.path_eq
  have hpath : ['/'].intercalate (pieces scheme a.text parts) =
      scheme.toList ++ ':' :: a.render.toList ++ (Path.segments parts).render.toList := by
    obtain ⟨p, ps, rfl⟩ := List.exists_cons_of_ne_nil h.ne_nil
    rw [pieces, toList_render_authority, toList_render_path h.ne_nil, List.map_cons]
    simp only [List.intercalate_cons_cons, List.append_assoc, List.cons_append, List.nil_append]
  rw [hpath]
  cases query <;> cases fragment <;>
    simp only [render, front, behind, String.toList_append, List.append_assoc] <;> rfl

theorem hasNoMarks_of_mem_pieces (h : u.IsClear a parts) :
    ∀ piece ∈ pieces u.scheme a.text parts, HasNoMarks piece := by
  have hcolon : HasNoMarks [':'] := by decide
  simp only [pieces, List.forall_mem_cons, List.forall_mem_map]
  exact ⟨h.scheme.append hcolon, List.forall_mem_nil _, h.authority, h.parts⟩

theorem read?_render (h : u.IsClear a parts) :
    read? u.render = some ⟨u.scheme, a.text, parts, u.query, u.fragment⟩ := by
  have hmarks := hasNoMarks_of_mem_pieces h
  have hpath : ∀ mark, mark = '?' ∨ mark = '#' →
      mark ∉ ['/'].intercalate (pieces u.scheme a.text parts) := by
    intro mark hmark hmem
    have hne : mark ≠ '/' := by
      rintro rfl
      exact absurd hmark (by decide)
    obtain ⟨piece, hpiece, hin⟩ := (Text.mem_intercalate hne).1 hmem
    obtain ⟨-, hquestion, hnumber⟩ := hmarks piece hpiece mark hin
    exact hmark.elim hquestion hnumber
  have hquery : '#' ∉ behind '?' u.query := by
    cases hq : u.query with
    | none => exact List.not_mem_nil
    | some q => exact List.not_mem_cons_of_ne_of_not_mem (by decide) (h.query q hq)
  have hwhole : '#' ∉ ['/'].intercalate (pieces u.scheme a.text parts) ++ behind '?' u.query := by
    rw [List.mem_append, not_or]
    exact ⟨hpath '#' (.inr rfl), hquery⟩
  have hcut : (['/'].intercalate (pieces u.scheme a.text parts)).splitOn '/' =
      pieces u.scheme a.text parts :=
    List.splitOn_intercalate '/' (fun piece hpiece hmem => (hmarks piece hpiece '/' hmem).1 rfl)
      (List.cons_ne_nil _ _)
  have hback : ∀ part : Option String, (part.map String.toList).map String.ofList = part := by
    intro part
    cases part with
    | none => rfl
    | some s => exact congrArg some String.ofList_toList
  have hparts : (parts.map String.toList).map String.ofList = parts := by
    rw [List.map_map]
    exact (List.map_congr_left fun s _ => String.ofList_toList).trans (List.map_id parts)
  rw [read?, toList_render h, cutOff_append hwhole]
  dsimp only
  rw [cutOff_append (hpath '?' (.inl rfl))]
  dsimp only
  rw [hcut, pieces]
  dsimp only
  rw [List.getLast?_concat, if_pos rfl, List.dropLast_concat, hparts, hback, hback,
    String.ofList_toList, String.ofList_toList]

end

end Url

end Mailroom
