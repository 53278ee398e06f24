/-
The address of something in a room.

Every name that leads into a room becomes one segment of the path, in which no character can be
taken for a mark. So whoever reads the address finds the names as they are behind the path of the
homeserver, and nothing else of the address is touched.

* `IsPlainName` — a name that is neither a step nor holds a character that is dropped;
* `segmentText?_written`, `hasNoMarks_written` — a name is read as it is, and holds no mark;
* `pushSegment_eq`, `foldl_pushSegment`, `exists_push_eq` — names behind a path;
* `exists_push_extends` — names behind the path of any address of the web;
* `room_stays_in_its_segment` — the address of something in a room.
-/
import Mailroom.Proofs.Url.Marks
import Mailroom.Transport.Matrix
import Mathlib.Data.List.DropRight

namespace Mailroom

namespace Url

/-! ### Names as segments -/

/-- A name that is neither a step in a path nor holds a tab or a line break. -/
def IsPlainName (name : String) : Prop :=
  name ≠ "." ∧ name ≠ ".." ∧ ∀ c ∈ name.toList, isDropped c = false

instance (name : String) : Decidable (IsPlainName name) :=
  haveI := List.decidableBAll (isDropped · = false) name.toList
  inferInstanceAs (Decidable (_ ∧ _ ∧ _))

/-- How a name is written as a segment. -/
def written (scheme name : String) : String :=
  String.ofList (Text.Percent.encode (segmentKeep (isSpecial scheme)) name.toList)

/-- The text that a segment stands for. -/
def segmentText? (segment : String) : Option String :=
  Text.decode? (Text.Percent.decode segment.toList)

section

variable {scheme name : String}

theorem segmentKeep_percent (special : Bool) : segmentKeep special '%' = false := by
  cases special <;> decide

/-- A name is read as it is. -/
theorem segmentText?_written (scheme name : String) :
    segmentText? (written scheme name) = some name := by
  rw [segmentText?, written, String.toList_ofList,
    Text.Percent.decode_encode (segmentKeep_percent _), String.ofList_toList,
    Text.decode?_encodeUtf8]

theorem written_injective (scheme : String) : Function.Injective (written scheme) := by
  intro name other h
  have htext := segmentText?_written scheme name
  rw [h, segmentText?_written] at htext
  exact (Option.some.inj htext).symm

theorem hasNoMarks_written (scheme name : String) : HasNoMarks (written scheme name).toList := by
  have hmarks : ∀ special, segmentKeep special '/' = false ∧ segmentKeep special '?' = false ∧
      segmentKeep special '#' = false := by decide
  rw [written, String.toList_ofList]
  exact hasNoMarks_encode fun c _ => ne_marks_of_eq_true (hmarks _)

theorem written_empty (scheme : String) : written scheme "" = "" := by
  unfold written
  cases isSpecial scheme <;> decide

theorem written_dot (scheme : String) : written scheme "." = "." ∧ written scheme ".." = ".." := by
  unfold written
  cases isSpecial scheme <;> decide

/-! ### Names behind a path -/

/-- A plain name becomes one segment, for which a path of nothing but its first slash has room. -/
theorem pushSegment_eq (hscheme : scheme ≠ "file") (hname : IsPlainName name)
    (parts : List String) : pushSegment scheme parts name =
      (if parts = [""] then [] else parts) ++ [written scheme name] := by
  obtain ⟨hhere, hup, hdropped⟩ := hname
  have hkept : name.toList.filter (!isDropped ·) = name.toList :=
    List.filter_eq_self.2 fun c hc => by rw [hdropped c hc]; rfl
  have hne : ∀ step : String, written scheme step = step → name ≠ step →
      Text.Percent.encode (segmentKeep (isSpecial scheme)) name.toList ≠ step.toList := by
    intro step hstep hne heq
    refine hne (written_injective scheme ?_)
    rw [hstep, written, heq, String.ofList_toList]
  have hone : Text.Percent.encode (segmentKeep (isSpecial scheme)) name.toList ≠ ['.'] :=
    hne "." (written_dot scheme).1 hhere
  have htwo : Text.Percent.encode (segmentKeep (isSpecial scheme)) name.toList ≠ ['.', '.'] :=
    hne ".." (written_dot scheme).2 hup
  have hplaced : ∀ done s, placed scheme done s = s := fun done s => if_neg fun h => hscheme h.1
  rw [pushSegment, if_neg (not_or.2 ⟨hhere, hup⟩)]
  dsimp only
  rw [hkept, if_neg hscheme, if_neg hone, if_neg htwo, hplaced, written]

theorem foldl_pushSegment (hscheme : scheme ≠ "file") {parts more : List String}
    (hparts : ∃ part ∈ parts, part ≠ "") (hmore : ∀ name ∈ more, IsPlainName name) :
    more.foldl (pushSegment scheme) parts = parts ++ more.map (written scheme) := by
  induction more generalizing parts with
  | nil => exact (List.append_nil parts).symm
  | cons name more ih =>
    obtain ⟨part, hpart, hne⟩ := hparts
    have hblank : parts ≠ [""] := by
      rintro rfl
      exact hne (List.mem_singleton.1 hpart)
    obtain ⟨hname, hmore⟩ := List.forall_mem_cons.1 hmore
    rw [List.foldl_cons, pushSegment_eq hscheme hname, if_neg hblank,
      ih ⟨part, List.mem_append_left _ hpart, hne⟩ hmore, List.map_cons, List.append_assoc,
      List.singleton_append]

/-- Names are put behind a path, after what is empty at its end. -/
theorem exists_push_eq {u : Url} {parts : List String} (hscheme : u.scheme ≠ "file")
    (hpath : u.path = .segments parts) {names : List String} (hfirst : ∃ s ∈ names.head?, s ≠ "")
    (hnames : ∀ name ∈ names, IsPlainName name) :
    ∃ front blanks, parts = front ++ blanks ∧ (∀ s ∈ blanks, s = "") ∧ u.push names =
      some { u with path := .segments (front ++ names.map (written u.scheme)) } := by
  obtain ⟨first, hhead, hfirst⟩ := hfirst
  obtain ⟨rest, rfl⟩ := List.head?_eq_some_iff.1 hhead
  have hblank : ∀ s ∈ [""], s = "" := fun s => List.mem_singleton.1
  -- what is left of the path when an empty segment at its end is replaced
  obtain ⟨base, blanks, hbase, hblanks, hpush⟩ : ∃ base blanks, parts = base ++ blanks ∧
      (∀ s ∈ blanks, s = "") ∧ u.push (first :: rest) =
        some { u with path := .segments ((first :: rest).foldl (pushSegment u.scheme) base) } := by
    rw [push, hpath]
    dsimp only
    split
    · rename_i h
      exact ⟨_, _, (List.dropLast_append_getLast? _ h.2).symm, hblank, rfl⟩
    · exact ⟨_, [], (List.append_nil _).symm, List.forall_mem_nil _, rfl⟩
  have hwritten : written u.scheme first ≠ "" := fun h =>
    hfirst (written_injective u.scheme (h.trans (written_empty u.scheme).symm))
  obtain ⟨hplain, hrest⟩ := List.forall_mem_cons.1 hnames
  have hfold : ∀ front : List String, (front ++ [written u.scheme first]) ++
      rest.map (written u.scheme) = front ++ (first :: rest).map (written u.scheme) := by
    intro front
    rw [List.append_assoc, List.singleton_append, List.map_cons]
  rw [List.foldl_cons, pushSegment_eq hscheme hplain,
    foldl_pushSegment hscheme ⟨_, List.mem_append_right _ (List.mem_singleton_self _), hwritten⟩
      hrest, hfold] at hpush
  by_cases hone : base = [""]
  · rw [if_pos hone] at hpush
    refine ⟨[], base ++ blanks, by rw [hbase, List.nil_append], ?_, hpush⟩
    exact List.forall_mem_append.2 ⟨hone ▸ hblank, hblanks⟩
  · rw [if_neg hone] at hpush
    exact ⟨base, blanks, hbase, hblanks, hpush⟩

end

/-! ### Reading the address -/

/-- Whether a reader finds these names at the end of one address, and otherwise what stands in
another one. -/
structure Reading.Extends (after before : Reading) (names : List String) : Prop where
  scheme_eq : after.scheme = before.scheme
  authority_eq : after.authority = before.authority
  names_eq : (after.segments.rtake names.length).map segmentText? = names.map some
  front_eq : ∃ blanks, before.segments = after.segments.rdrop names.length ++ blanks ∧
    ∀ s ∈ blanks, s = ""
  query_eq : after.query = before.query
  fragment_eq : after.fragment = before.fragment

section

variable {u : Url}

/-- Names can be added to every address of the web, and they are all that is added. -/
theorem exists_push_extends {s : String} (hparse : Url.parse s = .ok u) (hweb : u.IsWeb)
    {names : List String} (hfirst : ∃ s ∈ names.head?, s ≠ "")
    (hnames : ∀ name ∈ names, IsPlainName name) :
    ∃ r before after, u.push names = some r ∧ read? u.render = some before ∧
      read? r.render = some after ∧ after.Extends before names ∧
      r.query = u.query ∧ r.fragment = u.fragment := by
  obtain ⟨a, parts, hclear⟩ := isClear_of_parse hparse hweb
  obtain ⟨front, blanks, hparts, hblanks, hpush⟩ :=
    exists_push_eq hweb.ne_file hclear.path_eq hfirst hnames
  have hne : names ≠ [] := by
    rintro rfl
    obtain ⟨s, hs, -⟩ := hfirst
    exact absurd hs nofun
  have hmore : IsClear { u with path := .segments (front ++ names.map (written u.scheme)) } a
      (front ++ names.map (written u.scheme)) := by
    refine { hclear with path_eq := rfl, ne_nil := ?_, parts := ?_ }
    · exact List.append_ne_nil_of_right_ne_nil _ (mt List.map_eq_nil_iff.1 hne)
    · refine List.forall_mem_append.2 ⟨fun part hpart => ?_, ?_⟩
      · exact hclear.parts part (hparts ▸ List.mem_append_left _ hpart)
      · exact List.forall_mem_map.2 fun name _ => hasNoMarks_written _ _
  have hend : (front ++ names.map (written u.scheme)).length - names.length = front.length := by
    rw [List.length_append, List.length_map, Nat.add_sub_cancel]
  have hback : (names.map (written u.scheme)).map segmentText? = names.map some := by
    rw [List.map_map]
    refine List.map_congr_left fun name _ => ?_
    rw [Function.comp_apply, segmentText?_written]
  refine ⟨_, _, _, hpush, read?_render hclear, read?_render hmore,
    ⟨rfl, rfl, ?_, ⟨blanks, ?_, hblanks⟩, rfl, rfl⟩, rfl, rfl⟩
  · rw [List.rtake, hend, List.drop_left, hback]
  · rw [List.rdrop, hend, List.take_left]
    exact hparts

theorem Reading.Extends.unique {after before before' : Reading} {names names' : List String}
    (h : after.Extends before names) (h' : after.Extends before' names')
    (hlength : names'.length = names.length) : names' = names := by
  have hnames := h'.names_eq
  rw [hlength, h.names_eq] at hnames
  exact (List.map_injective_iff.2 (fun _ _ => Option.some.inj) hnames).symm

end

end Url

/-! ### Rooms -/

/-- The names that lead into a room, from the path of a homeserver on. -/
def roomNames (room : String) (tail : List String) : List String :=
  "_matrix" :: "client" :: "v3" :: "rooms" :: room :: tail

/-- Whether plain names lead into a room of a homeserver on the web, whose address is `u`. -/
structure LeadsIntoRoom (homeserver room : String) (tail : List String) (u : Url) : Prop where
  parse_eq : Url.parse homeserver = .ok u
  isWeb : u.IsWeb
  plain : ∀ name ∈ room :: tail, Url.IsPlainName name

section

variable {homeserver room : String} {tail : List String} {u : Url}

theorem LeadsIntoRoom.exists_roomUrl (h : LeadsIntoRoom homeserver room tail u) :
    ∃ r before after, roomUrl homeserver room tail = .ok r ∧ Url.read? u.render = some before ∧
      Url.read? r.render = some after ∧ after.Extends before (roomNames room tail) ∧
      r.query = u.query ∧ r.fragment = u.fragment := by
  have hfirst : ∃ s ∈ (roomNames room tail).head?, s ≠ "" := ⟨_, rfl, by decide⟩
  have hplain : ∀ name ∈ roomNames room tail, Url.IsPlainName name := by
    simp only [roomNames, List.forall_mem_cons]
    exact ⟨by decide, by decide, by decide, by decide, List.forall_mem_cons.1 h.plain⟩
  obtain ⟨r, before, after, hpush, hrest⟩ :=
    Url.exists_push_extends h.parse_eq h.isWeb hfirst hplain
  refine ⟨r, before, after, ?_, hrest⟩
  have hpush : u.push (["_matrix", "client", "v3", "rooms", room] ++ tail) = some r := hpush
  rw [roomUrl, h.parse_eq]
  dsimp only
  rw [hpush]

/-- The address of something in a room is the one of its homeserver with the names that lead there
behind the path, each of which is read as it is; so no two rooms have the same address. -/
theorem room_stays_in_its_segment (h : LeadsIntoRoom homeserver room tail u) :
    ∃ r before after, roomUrl homeserver room tail = .ok r ∧ Url.read? u.render = some before ∧
      Url.read? r.render = some after ∧ after.Extends before (roomNames room tail) ∧
      r.query = u.query ∧ r.fragment = u.fragment ∧
      ∀ homeserver' room' tail' u' r', LeadsIntoRoom homeserver' room' tail' u' →
        roomUrl homeserver' room' tail' = .ok r' → tail'.length = tail.length →
        r'.render = r.render → room' = room ∧ tail' = tail := by
  obtain ⟨r, before, after, hr, hbefore, hafter, hextends, hquery, hfragment⟩ := h.exists_roomUrl
  refine ⟨r, before, after, hr, hbefore, hafter, hextends, hquery, hfragment, ?_⟩
  intro homeserver' room' tail' u' r' h' hr' hlength hrender
  obtain ⟨s, before', after', hs, -, hafter', hextends', -⟩ := h'.exists_roomUrl
  obtain rfl : s = r' := Except.ok.inj (hs.symm.trans hr')
  obtain rfl : after = after' := by
    rw [hrender, hafter] at hafter'
    exact Option.some.inj hafter'
  have hnames : roomNames room' tail' = roomNames room tail :=
    hextends.unique hextends' (by simp [roomNames, hlength])
  simpa [roomNames] using hnames

end

/-- The address of a homeserver with a path, a query and a fragment. -/
def servedBelow : Url :=
  ⟨"https", some ⟨"", .domain "matrix.example.org", none⟩, .segments ["base", ""], some "q=1",
    some "f"⟩

/-- A room whose name holds every mark, and a part that looks encoded. -/
def markedRoom : String := "!a/b?c#d%2F\\é:x"

theorem room_stays_in_its_segment_marked :
    LeadsIntoRoom servedBelow.render markedRoom ["send", "txn1"] servedBelow ∧
      ∃ r after, roomUrl servedBelow.render markedRoom ["send", "txn1"] = .ok r ∧
        Url.read? r.render = some after ∧
        (after.segments.rtake 7).map Url.segmentText? =
          (roomNames markedRoom ["send", "txn1"]).map some ∧
        r.render = "https://matrix.example.org/base/_matrix/client/v3/rooms/" ++
          "!a%2Fb%3Fc%23d%252F%5C%C3%A9:x/send/txn1?q=1#f" := by
  have h : LeadsIntoRoom servedBelow.render markedRoom ["send", "txn1"] servedBelow :=
    ⟨by decide +kernel, .inr rfl, by decide⟩
  obtain ⟨r, before, after, hr, -, hafter, hextends, -⟩ := room_stays_in_its_segment h
  have hrender : (roomUrl servedBelow.render markedRoom ["send", "txn1"]).map Url.render =
      .ok ("https://matrix.example.org/base/_matrix/client/v3/rooms/" ++
        "!a%2Fb%3Fc%23d%252F%5C%C3%A9:x/send/txn1?q=1#f") := by decide +kernel
  rw [hr] at hrender
  exact ⟨h, r, after, hr, hafter, hextends.names_eq, Except.ok.inj hrender⟩

end Mailroom
