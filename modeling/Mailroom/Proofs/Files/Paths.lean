/-
A path into a folder.

* `IsFileName` — what an entry of a folder can be called;
* `parts_join` — a path into a folder has the parts of the folder's path and then the name;
* `fileName?_join` — its last part is the name;
* `parts_parent` — the path to the parts before the last one, and where it begins.
-/
import Mailroom.Files.PathText
import Mailroom.Proofs.Text.Pieces
import Mathlib.Data.List.Basic

namespace Mailroom

/-- A text that can be the name of an entry of a folder. -/
structure IsFileName (name : String) : Prop where
  ne_empty : name ≠ ""
  ne_here : name ≠ "."
  ne_up : name ≠ ".."
  no_slash : '/' ∉ name.toList

instance (name : String) : Decidable (IsFileName name) :=
  decidable_of_iff (name ≠ "" ∧ name ≠ "." ∧ name ≠ ".." ∧ '/' ∉ name.toList)
    ⟨fun h => ⟨h.1, h.2.1, h.2.2.1, h.2.2.2⟩, fun h => ⟨h.ne_empty, h.ne_here, h.ne_up, h.no_slash⟩⟩

namespace PathText

/-- Whether a piece between slashes counts wherever it stands. -/
def isStep (piece : String) : Bool := piece != "" && piece != "."

/-- The names and steps among the pieces between slashes. -/
def stepsOf (pieces : List String) : List String :=
  let names := pieces.filter isStep
  if pieces.head? = some "." then "." :: names else names

theorem parts_eq (path : String) :
    parts path = stepsOf ((path.toList.splitOn '/').map String.ofList) := rfl

variable {folder name : String}

theorem stepsOf_append_name {pieces : List String} (hne : pieces ≠ []) (hname : IsFileName name) :
    stepsOf (pieces ++ [name]) = stepsOf pieces ++ [name] := by
  have hkept : isStep name = true := by
    simp [isStep, hname.ne_empty, hname.ne_here]
  rw [stepsOf, stepsOf, List.head?_append_of_ne_nil _ hne, List.filter_append,
    List.filter_cons_of_pos hkept, List.filter_nil]
  split
  · rfl
  · rfl

theorem stepsOf_append_empty {pieces : List String} (hne : pieces ≠ []) :
    stepsOf (pieces ++ [""]) = stepsOf pieces := by
  have hdropped : ¬ isStep "" = true := by decide
  rw [stepsOf, stepsOf, List.head?_append_of_ne_nil _ hne, List.filter_append,
    List.filter_cons_of_neg hdropped, List.filter_nil, List.append_nil]

theorem isAbsolute_eq_false (hname : IsFileName name) : isAbsolute name = false := by
  rw [isAbsolute, beq_eq_false_iff_ne]
  intro hhead
  exact hname.no_slash (List.mem_of_mem_head? hhead)

/-- A path into a folder has one slash before the name, which may be the last of the folder's. -/
theorem toList_join (hfolder : folder ≠ "") (hname : IsFileName name) :
    ∃ front, (join folder name).toList = front ++ '/' :: name.toList ∧
      (folder.toList = front ∨ folder.toList = front ++ ['/']) := by
  have hopen : (isAbsolute name || folder.isEmpty) = false := by
    rw [isAbsolute_eq_false hname, Bool.false_or, String.isEmpty_eq_false_iff]
    exact hfolder
  rw [join, if_neg (by rw [hopen]; exact Bool.false_ne_true)]
  split
  · rename_i hslash
    obtain ⟨front, hfront⟩ := List.getLast?_eq_some_iff.1 hslash
    refine ⟨front, ?_, .inr hfront⟩
    rw [String.toList_append, hfront, List.append_assoc, List.singleton_append]
  · refine ⟨folder.toList, ?_, .inl rfl⟩
    simp

theorem parts_join (hfolder : folder ≠ "") (hname : IsFileName name) :
    parts (join folder name) = parts folder ++ [name] := by
  obtain ⟨front, hjoin, hfront⟩ := toList_join hfolder hname
  have hpieces : (front.splitOn '/').map String.ofList ≠ [] := by
    rw [Ne, List.map_eq_nil_iff]
    exact List.splitOn_ne_nil '/' front
  have hparts : parts (join folder name) =
      stepsOf ((front.splitOn '/').map String.ofList) ++ [name] := by
    rw [parts_eq, hjoin, List.splitOn_append_cons_self, List.splitOn_eq_singleton hname.no_slash,
      List.map_append, List.map_singleton, String.ofList_toList]
    exact stepsOf_append_name hpieces hname
  rw [hparts, parts_eq]
  rcases hfront with hfront | hfront
  · rw [hfront]
  · -- the slash at the end of the folder's path makes one more piece, which is empty
    rw [hfront, List.splitOn_append_cons_self, List.splitOn_nil, List.map_append,
      List.map_singleton]
    exact congrArg (· ++ [name]) (stepsOf_append_empty hpieces).symm

theorem fileName?_join (hfolder : folder ≠ "") (hname : IsFileName name) :
    fileName? (join folder name) = some name := by
  rw [fileName?, parts_join hfolder hname, List.getLast?_concat, Option.filter_some, if_pos]
  simp [hname.ne_here, hname.ne_up]

theorem join_ne_empty (hfolder : folder ≠ "") (hname : IsFileName name) :
    join folder name ≠ "" := by
  intro h
  obtain ⟨front, hjoin, -⟩ := toList_join hfolder hname
  rw [h] at hjoin
  exact absurd hjoin (by simp)

theorem getLast?_join (hfolder : folder ≠ "") (hname : IsFileName name) :
    (join folder name).toList.getLast? ≠ some '/' := by
  obtain ⟨front, hjoin, -⟩ := toList_join hfolder hname
  have hne : name.toList ≠ [] := fun h => hname.ne_empty (String.toList_eq_nil_iff.1 h)
  intro hlast
  rw [hjoin, List.getLast?_append, List.getLast?_cons_of_ne_nil hne, Option.or_of_isSome] at hlast
  · exact hname.no_slash (List.mem_of_getLast? hlast)
  · rw [List.getLast?_isSome]
    exact hne

theorem isAbsolute_join (hfolder : folder ≠ "") (hname : IsFileName name) :
    isAbsolute (join folder name) = isAbsolute folder := by
  obtain ⟨front, hjoin, hfront⟩ := toList_join hfolder hname
  have hne : folder.toList ≠ [] := fun h => hfolder (String.toList_eq_nil_iff.1 h)
  rw [isAbsolute, isAbsolute, hjoin]
  cases front with
  | nil =>
    rcases hfront with hfront | hfront
    · exact absurd hfront hne
    · rw [hfront]
      rfl
  | cons c front =>
    rcases hfront with hfront | hfront
    · rw [hfront]
      rfl
    · rw [hfront]
      rfl

/-! ### The path to a parent -/

theorem isAbsolute_iff {path : String} :
    isAbsolute path = true ↔ ∃ cs, path.toList = '/' :: cs := by
  rw [isAbsolute, beq_iff_eq, List.head?_eq_some_iff]

/-- The piece before the root is empty. -/
theorem splitOn_root (cs : List Char) : ('/' :: cs).splitOn '/' = [] :: cs.splitOn '/' :=
  List.splitOn_append_cons_self [] cs

theorem stepsOf_eq_self {ps : List String} (hhead : ∀ p ∈ ps.head?, p = "." ∨ isStep p = true)
    (htail : ∀ p ∈ ps.tail, isStep p = true) : stepsOf ps = ps := by
  cases ps with
  | nil => rfl
  | cons p ps =>
    have hrest : ps.filter isStep = ps := List.filter_eq_self.2 htail
    rcases hhead p rfl with rfl | hstep
    · rw [stepsOf, List.filter_cons_of_neg (by decide), hrest, List.head?_cons, if_pos rfl]
    · have hdot : some p ≠ some "." := by
        intro heq
        rw [Option.some.inj heq] at hstep
        exact absurd hstep (by decide)
      rw [stepsOf, List.filter_cons_of_pos hstep, hrest, List.head?_cons, if_neg hdot]

/-- After the root every step counts. -/
theorem stepsOf_root {ps : List String} (h : ∀ p ∈ ps, isStep p = true) :
    stepsOf ("" :: ps) = ps := by
  have hdot : some "" ≠ some "." := by decide
  rw [stepsOf, List.filter_cons_of_neg (by decide), List.filter_eq_self.2 h, List.head?_cons,
    if_neg hdot]

/-- The parts of a path are names and steps, after a dot at the front of one that does not begin
at the root. -/
theorem parts_spec (path : String) : (∀ p ∈ parts path, p ≠ "" ∧ '/' ∉ p.toList) ∧
    (∀ p ∈ (parts path).head?, p = "." ∨ isStep p = true) ∧
    (∀ p ∈ (parts path).tail, isStep p = true) ∧
    (isAbsolute path = true → ∀ p ∈ parts path, isStep p = true) := by
  have hnames : ∀ p ∈ ((path.toList.splitOn '/').map String.ofList).filter isStep,
      isStep p = true ∧ p ≠ "" ∧ '/' ∉ p.toList := by
    intro p hp
    obtain ⟨hmem, hstep⟩ := List.mem_filter.1 hp
    obtain ⟨piece, hpiece, rfl⟩ := List.mem_map.1 hmem
    refine ⟨hstep, ?_, ?_⟩
    · intro hempty
      rw [hempty] at hstep
      exact absurd hstep (by decide)
    · rw [String.toList_ofList]
      exact Text.not_mem_of_mem_splitOn hpiece
  rw [parts_eq, stepsOf]
  split
  · rename_i hdot
    refine ⟨List.forall_mem_cons.2 ⟨by decide, fun p hp => (hnames p hp).2⟩, ?_,
      fun p hp => (hnames p hp).1, fun habsolute => ?_⟩
    · intro p hp
      exact .inl (Option.some.inj hp).symm
    · obtain ⟨cs, hcs⟩ := isAbsolute_iff.1 habsolute
      rw [hcs, splitOn_root] at hdot
      exact absurd hdot (by simp)
  · refine ⟨fun p hp => (hnames p hp).2, fun p hp => .inr (hnames p (List.mem_of_mem_head? hp)).1,
      fun p hp => (hnames p (List.mem_of_mem_tail hp)).1, fun _ p hp => (hnames p hp).1⟩

/-- The path to the parts before the last one. -/
theorem parts_parent {path : String} (hne : (parts path).dropLast ≠ []) :
    parts ((if isAbsolute path then "/" else "") ++ "/".intercalate (parts path).dropLast) =
        (parts path).dropLast ∧
      isAbsolute ((if isAbsolute path then "/" else "") ++ "/".intercalate (parts path).dropLast) =
        isAbsolute path := by
  obtain ⟨hplain, hhead, htail, hroot⟩ := parts_spec path
  obtain ⟨ps, hps⟩ : ∃ ps, ps = (parts path).dropLast := ⟨_, rfl⟩
  have hsub : ∀ p ∈ ps, p ∈ parts path := fun p hp => List.dropLast_subset _ (hps ▸ hp)
  have hsplit : ((List.intercalate ['/'] (ps.map String.toList)).splitOn '/').map String.ofList =
      ps := by
    rw [List.splitOn_intercalate '/' ?_ fun hnil => hne (hps ▸ List.map_eq_nil_iff.1 hnil),
      List.map_map]
    · exact (List.map_congr_left fun p _ => String.ofList_toList).trans (List.map_id ps)
    · rintro _ hmem
      obtain ⟨p, hp, rfl⟩ := List.mem_map.1 hmem
      exact (hplain p (hsub p hp)).2
  have htext : ("/".intercalate ps).toList = List.intercalate ['/'] (ps.map String.toList) :=
    String.toList_intercalate
  rw [← hps] at hne ⊢
  by_cases habsolute : isAbsolute path = true
  · rw [if_pos habsolute, habsolute, parts_eq, isAbsolute, String.toList_append, htext]
    refine ⟨?_, rfl⟩
    show stepsOf ((('/' :: List.intercalate ['/'] (ps.map String.toList)).splitOn '/').map
      String.ofList) = ps
    rw [splitOn_root, List.map_cons, hsplit]
    exact stepsOf_root fun p hp => hroot habsolute p (hsub p hp)
  · rw [if_neg habsolute, String.empty_append, parts_eq, htext, hsplit]
    refine ⟨stepsOf_eq_self ?_ ?_, ?_⟩
    · intro p hp
      refine hhead p ?_
      rw [hps, List.head?_dropLast] at hp
      split at hp
      · exact hp
      · exact absurd hp (by simp)
    · intro p hp
      rw [hps, List.tail_dropLast] at hp
      exact htail p (List.dropLast_subset _ hp)
    · obtain ⟨p, rest, rfl⟩ := List.exists_cons_of_ne_nil hne
      obtain ⟨hempty, hslash⟩ := hplain p (hsub p List.mem_cons_self)
      obtain ⟨c, cs, hc⟩ := List.exists_cons_of_ne_nil
        fun hnil : p.toList = [] => hempty (String.toList_eq_nil_iff.1 hnil)
      have hfirst : ("/".intercalate (p :: rest)).toList.head? = some c := by
        rw [htext, List.map_cons, hc]
        cases rest <;> rfl
      have hother : c ≠ '/' := fun heq => hslash (hc ▸ heq ▸ List.mem_cons_self)
      rw [(Bool.not_eq_true _).mp habsolute, isAbsolute, hfirst, beq_eq_false_iff_ne]
      exact fun heq => hother (Option.some.inj heq)

end PathText

end Mailroom
