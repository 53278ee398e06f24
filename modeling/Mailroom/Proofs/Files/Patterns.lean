/-
Patterns that are paths, but for their last name.

A path becomes part of a pattern as it is. If none of its characters opens something in a pattern,
the pattern leads where the path leads, name by name, and its last name chooses among the entries
of the folder there. With a character in brackets it leads to the entry whose name has the character
without them.

* `NamePattern.Reads`, `Opens` — a text that is read as some tokens wherever it stands, and one
  after which more can come;
* `accepts_endingIn_iff`, `accepts_bracketed_iff` — the names that fit;
* `PathText.ReadAs` — a path at the front of a pattern;
* `Tree.mem_fitting`, `Tree.nodup_fitting` — the entries of a folder that fit, each once;
* `Tree.matchNames_append` — names without stars are followed one after another;
* `Tree.matchNames_pieces` — the names of a path lead where the path leads;
* `Tree.mem_matchNames_bracketed` — where a name with brackets leads;
* `Tree.matching_join` — what a pattern behind a path gives.
-/
import Mailroom.Files.Search
import Mailroom.Proofs.Files.Trees
import Mailroom.Proofs.Text.Pieces

namespace Mailroom

namespace NamePattern

/-- Whether no character of a text opens something in a pattern. -/
def IsLiteral (cs : List Char) : Prop := ∀ c ∈ cs, c ≠ '?' ∧ c ≠ '*' ∧ c ≠ '['

instance (cs : List Char) : Decidable (IsLiteral cs) :=
  List.decidableBAll (fun c => c ≠ '?' ∧ c ≠ '*' ∧ c ≠ '[') cs

/-- The tokens of a text in which every character stands for itself. -/
def literally (cs : List Char) : List Token := cs.map .char

/-- The tokens of the names that end in a text. -/
def endingIn (cs : List Char) : List Token := .anyText :: literally cs

/-- The tokens of a text and one character in brackets. -/
def bracketed (cs : List Char) (c : Char) : List Token := literally cs ++ [.within [(c, c)]]

variable {cs : List Char} {tokens : List Token}

/-! ### Reading -/

/-- Whether a text is read as some tokens, wherever it stands in a pattern. -/
def Reads (cs : List Char) (tokens : List Token) : Prop :=
  ∀ (n : Nat) (i : Int) (before : Option Char),
    parseFrom (cs.length + n) i before cs = .ok tokens

theorem Reads.parse (h : Reads cs tokens) : NamePattern.parse cs = .ok tokens := h 1 0 none

theorem reads_nil : Reads [] [] := by
  intro n i before
  cases n with
  | zero => rfl
  | succ n => rfl

theorem reads_char {c : Char} (hc : c ≠ '?' ∧ c ≠ '*' ∧ c ≠ '[') (h : Reads cs tokens) :
    Reads (c :: cs) (.char c :: tokens) := by
  intro n i before
  rw [List.length_cons, Nat.add_right_comm, parseFrom, if_neg hc.1, if_neg hc.2.1, if_neg hc.2.2, h]
  rfl

/-- Whether a text is read as some tokens, whatever comes after it. -/
def Opens (cs : List Char) (tokens : List Token) : Prop :=
  ∀ rest more, Reads rest more → Reads (cs ++ rest) (tokens ++ more)

theorem Opens.reads (h : Opens cs tokens) : Reads cs tokens := by
  have hend := h _ _ reads_nil
  rwa [List.append_nil, List.append_nil] at hend

theorem Opens.append {ds : List Char} {more : List Token} (h : Opens cs tokens)
    (h' : Opens ds more) : Opens (cs ++ ds) (tokens ++ more) := by
  intro rest last hrest
  rw [List.append_assoc, List.append_assoc]
  exact h _ _ (h' _ _ hrest)

theorem opens_literally (hcs : IsLiteral cs) : Opens cs (literally cs) := by
  intro rest more hrest
  induction cs with
  | nil => exact hrest
  | cons c cs ih =>
    obtain ⟨hc, hcs⟩ := List.forall_mem_cons.1 hcs
    exact reads_char hc (ih hcs)

/-- One star before a text without patterns. -/
theorem reads_star (hcs : IsLiteral cs) : Reads ('*' :: cs) (endingIn cs) := by
  intro n i before
  -- another star next to it would make a different token
  have hone : cs.takeWhile (· == '*') = [] := by
    cases cs with
    | nil => rfl
    | cons c cs =>
      have hc : (c == '*') = false := beq_false_of_ne (hcs c List.mem_cons_self).2.1
      rw [List.takeWhile_cons, hc]
      rfl
  rw [List.length_cons, Nat.add_right_comm, parseFrom, if_neg (by decide), if_pos rfl, hone]
  show (parseFrom (cs.length + n) (i + 1) (some '*') cs >>= fun tokens =>
    pure (Token.anyText :: tokens)) = _
  rw [(opens_literally hcs).reads]
  rfl

theorem opens_brackets {c : Char} (hc : c ≠ '!') : Opens ['[', c, ']'] [.within [(c, c)]] := by
  intro cs tokens h n i before
  have hbrackets : brackets? (c :: ']' :: cs) = some (.within [(c, c)], cs) := by
    unfold brackets?
    split
    · rename_i heq
      exact absurd (List.cons.inj heq).1 hc
    · rename_i heq
      exact absurd (List.cons.inj heq).1 hc
    · rename_i d more _ heq
      obtain ⟨rfl, rfl⟩ := List.cons.inj heq
      rfl
    · rename_i heq
      exact absurd heq nofun
  have hlength : (['[', c, ']'] ++ cs).length + n = cs.length + (n + 2) + 1 := by
    rw [List.length_append, List.length_cons, List.length_cons, List.length_singleton]
    omega
  rw [hlength, List.cons_append, List.cons_append, List.singleton_append, parseFrom,
    if_neg (by decide), if_neg (by decide), if_pos rfl, hbrackets]
  dsimp only
  rw [h]
  rfl

/-- A text without patterns, and one character in brackets. -/
theorem opens_bracketed {c : Char} (hcs : IsLiteral cs) (hc : c ≠ '!') :
    Opens (cs ++ ['[', c, ']']) (bracketed cs c) :=
  (opens_literally hcs).append (opens_brackets hc)

/-! ### Fitting -/

theorem literal?_literally (cs : List Char) : literal? (literally cs) = some cs := by
  induction cs with
  | nil => rfl
  | cons c cs ih =>
    show (literal? (literally cs)).map (c :: ·) = _
    rw [ih]
    rfl

theorem accepts_append {name : List Char} :
    accepts (literally cs ++ tokens) name = true ↔
      ∃ rest, name = cs ++ rest ∧ accepts tokens rest = true := by
  induction cs generalizing name with
  | nil => exact ⟨fun h => ⟨name, rfl, h⟩, fun ⟨_, hrest, h⟩ => hrest ▸ h⟩
  | cons c cs ih =>
    show afterFirst (· == c) (accepts (literally cs ++ tokens)) name = true ↔ _
    cases name with
    | nil => exact ⟨nofun, nofun⟩
    | cons d name =>
      rw [afterFirst, Bool.and_eq_true, beq_iff_eq, ih]
      constructor
      · rintro ⟨rfl, rest, rfl, h⟩
        exact ⟨rest, rfl, h⟩
      · rintro ⟨rest, heq, h⟩
        obtain ⟨rfl, rfl⟩ := List.cons.inj heq
        exact ⟨rfl, rest, rfl, h⟩

theorem accepts_literally_iff {name : List Char} :
    accepts (literally cs) name = true ↔ name = cs := by
  rw [← List.append_nil (literally cs), accepts_append]
  constructor
  · rintro ⟨rest, rfl, h⟩
    rw [List.isEmpty_iff.1 h, List.append_nil]
  · rintro rfl
    exact ⟨[], (List.append_nil _).symm, rfl⟩

/-- The one name that fits is the text with the character. -/
theorem accepts_bracketed_iff {c : Char} {name : List Char} :
    accepts (bracketed cs c) name = true ↔ name = cs ++ [c] := by
  have hone : ∀ rest, accepts [.within [(c, c)]] rest = true ↔ rest = [c] := by
    intro rest
    show afterFirst (inRanges [(c, c)]) List.isEmpty rest = true ↔ _
    cases rest with
    | nil => exact ⟨nofun, nofun⟩
    | cons d rest =>
      rw [afterFirst, inRanges, List.any_cons, List.any_nil, Bool.or_false, Bool.and_eq_true,
        Bool.and_eq_true, decide_eq_true_eq, decide_eq_true_eq, ← le_antisymm_iff,
        List.isEmpty_iff, List.cons.injEq, eq_comm]
  rw [bracketed, accepts_append]
  simp only [hone, exists_eq_right]

theorem literal?_bracketed (cs : List Char) (c : Char) : literal? (bracketed cs c) = none := by
  induction cs with
  | nil => rfl
  | cons d cs ih =>
    show (literal? (bracketed cs c)).map (d :: ·) = _
    rw [ih]
    rfl

theorem literally_ne (cs : List Char) : literally cs ≠ [Token.anyFolders] := by
  intro h
  have hmem : Token.anyFolders ∈ literally cs := h ▸ List.mem_singleton_self _
  obtain ⟨c, -, hc⟩ := List.mem_map.1 hmem
  exact absurd hc nofun

theorem bracketed_ne (cs : List Char) (c : Char) : bracketed cs c ≠ [Token.anyFolders] := by
  intro h
  have hmem : Token.within [(c, c)] ∈ bracketed cs c := List.mem_append_right _ List.mem_cons_self
  rw [h, List.mem_singleton] at hmem
  exact absurd hmem nofun

theorem someEnd_iff {p : List Char → Bool} {name : List Char} :
    someEnd p name = true ↔ ∃ last, last <:+ name ∧ p last = true := by
  induction name with
  | nil =>
    rw [someEnd]
    refine ⟨fun h => ⟨[], List.suffix_rfl, h⟩, ?_⟩
    rintro ⟨last, hlast, h⟩
    rwa [List.suffix_nil.1 hlast] at h
  | cons c name ih =>
    rw [someEnd, Bool.or_eq_true, ih]
    constructor
    · rintro (h | ⟨last, hlast, h⟩)
      · exact ⟨_, List.suffix_rfl, h⟩
      · exact ⟨last, hlast.trans (List.suffix_cons c name), h⟩
    · rintro ⟨last, hlast, h⟩
      rcases List.suffix_cons_iff.1 hlast with rfl | hlast
      · exact .inl h
      · exact .inr ⟨last, hlast, h⟩

/-- The names that fit are those that end in the text. -/
theorem accepts_endingIn_iff {name : List Char} :
    accepts (endingIn cs) name = true ↔ cs <:+ name := by
  show someEnd (accepts (literally cs)) name = true ↔ _
  simp only [someEnd_iff, accepts_literally_iff, exists_eq_right]

end NamePattern

/-- A list keeps each of its elements once when its duplicates are dropped. -/
theorem nodup_eraseDups {α : Type} [BEq α] [LawfulBEq α] (as : List α) : as.eraseDups.Nodup := by
  induction h : as.length using Nat.strong_induction_on generalizing as with
  | _ n ih =>
    cases as with
    | nil => exact List.nodup_nil
    | cons a as =>
      rw [List.eraseDups_cons, List.nodup_cons, List.mem_eraseDups]
      refine ⟨by simp, ih _ ?_ _ rfl⟩
      rw [← h, List.length_cons]
      exact Nat.lt_succ_of_le (List.length_filter_le _ as)

namespace PathText

variable {folder path name : String}

/-- What stands between the slashes of a path, after the root if it begins there. -/
def pieces (path : String) : List (List Char) :=
  (if isAbsolute path then path.toList.drop 1 else path.toList).splitOn '/'

theorem toList_join_of_open (hfolder : folder ≠ "") (hopen : folder.toList.getLast? ≠ some '/')
    (hname : IsFileName name) :
    (join folder name).toList = folder.toList ++ '/' :: name.toList := by
  obtain ⟨front, hjoin, hfront | hfront⟩ := toList_join hfolder hname
  · rw [hjoin, hfront]
  · rw [hfront, List.getLast?_concat] at hopen
    exact absurd rfl hopen

theorem pieces_join (hfolder : folder ≠ "") (hopen : folder.toList.getLast? ≠ some '/')
    (hname : IsFileName name) : pieces (join folder name) = pieces folder ++ [name.toList] := by
  rw [pieces, isAbsolute_join hfolder hname, toList_join_of_open hfolder hopen hname, pieces]
  split
  · rename_i habsolute
    obtain ⟨cs, hcs⟩ := isAbsolute_iff.1 habsolute
    rw [hcs, List.cons_append, List.drop_one, List.drop_one, List.tail_cons, List.tail_cons,
      List.splitOn_append_cons_self, List.splitOn_eq_singleton hname.no_slash]
  · rw [List.splitOn_append_cons_self, List.splitOn_eq_singleton hname.no_slash]

theorem mem_of_mem_pieces {piece : List Char} (h : piece ∈ pieces path) {c : Char}
    (hc : c ∈ piece) : c ∈ path.toList := by
  rw [pieces] at h
  have hslash : c ≠ '/' := fun heq => Text.not_mem_of_mem_splitOn h (heq ▸ hc)
  have hmem := (Text.mem_intercalate hslash).2 ⟨piece, h, hc⟩
  rw [List.intercalate_splitOn] at hmem
  split at hmem
  · exact List.mem_of_mem_drop hmem
  · exact hmem

theorem filter_pieces (path : String) :
    ((path.toList.splitOn '/').map String.ofList).filter isStep =
      ((pieces path).map String.ofList).filter isStep := by
  rw [pieces]
  split
  · rename_i habsolute
    obtain ⟨cs, hcs⟩ := isAbsolute_iff.1 habsolute
    have hdropped : ¬ isStep (String.ofList []) = true := by decide
    rw [hcs, splitOn_root, List.map_cons, List.filter_cons_of_neg hdropped, List.drop_one,
      List.tail_cons]
  · rfl

/-- The parts of a path are its pieces, but for those that lead nowhere and a dot at the front. -/
theorem parts_eq_or (path : String) :
    parts path = ((pieces path).map String.ofList).filter isStep ∨
      parts path = "." :: ((pieces path).map String.ofList).filter isStep := by
  rw [parts_eq, stepsOf, filter_pieces]
  split
  · exact .inr rfl
  · exact .inl rfl

/-! ### Paths in patterns -/

open NamePattern

theorem isLiteral_join (hfolder : folder ≠ "") (hname : IsFileName name)
    (hliteral : IsLiteral folder.toList) (hchars : IsLiteral name.toList) :
    IsLiteral (join folder name).toList := by
  obtain ⟨front, hjoin, hfront⟩ := toList_join hfolder hname
  have hslash : IsLiteral ['/'] := by decide
  have hliteral : IsLiteral front := by
    rcases hfront with hfront | hfront
    · exact hfront ▸ hliteral
    · exact (List.forall_mem_append.1 (hfront ▸ hliteral)).1
  rw [hjoin, List.append_cons]
  exact List.forall_mem_append.2 ⟨List.forall_mem_append.2 ⟨hliteral, hslash⟩, hchars⟩

/-- A path at the front of a pattern, which is read as some names when a slash comes next. -/
structure ReadAs (path : String) (names : List (List Token)) : Prop where
  ne_empty : path ≠ ""
  no_slash : path.toList.getLast? ≠ some '/'
  opens : ∃ tokens, Opens path.toList tokens
  pieces : List.Forall₂ Reads (pieces path) names
  no_stars : ∀ tokens ∈ names, tokens ≠ [Token.anyFolders]

theorem readAs_of_isLiteral (hpath : path ≠ "") (hslash : path.toList.getLast? ≠ some '/')
    (hliteral : IsLiteral path.toList) : ReadAs path ((pieces path).map literally) := by
  refine ⟨hpath, hslash, ⟨_, opens_literally hliteral⟩, ?_, ?_⟩
  · refine List.forall₂_map_right_iff.2 (List.forall₂_same.2 fun piece hpiece => ?_)
    exact (opens_literally fun c hc => hliteral c (mem_of_mem_pieces hpiece hc)).reads
  · exact List.forall_mem_map.2 fun piece _ => literally_ne piece

theorem ReadAs.join {names : List (List Token)} {tokens : List Token} (h : ReadAs folder names)
    (hname : IsFileName name) (hopens : Opens name.toList tokens)
    (hstars : tokens ≠ [Token.anyFolders]) :
    ReadAs (join folder name) (names ++ [tokens]) where
  ne_empty := join_ne_empty h.ne_empty hname
  no_slash := getLast?_join h.ne_empty hname
  opens := by
    obtain ⟨front, hfront⟩ := h.opens
    have hslash : IsLiteral ['/'] := by decide
    rw [toList_join_of_open h.ne_empty h.no_slash hname, List.append_cons]
    exact ⟨_, (hfront.append (opens_literally hslash)).append hopens⟩
  pieces := by
    rw [pieces_join h.ne_empty h.no_slash hname]
    exact List.rel_append h.pieces (.cons hopens.reads .nil)
  no_stars := List.forall_mem_append.2 ⟨h.no_stars, List.forall_mem_singleton.2 hstars⟩

end PathText

namespace Tree

open NamePattern

variable {t : Tree} {here l k : Location} {tokens : List Token}

/-! ### From name to name -/

theorem mem_fitting : k ∈ t.fitting tokens l ↔
    ∃ name, k = l ++ [name] ∧ k ∈ t.locations ∧ accepts tokens name.toList = true := by
  rw [fitting]
  simp only [List.mem_map, List.mem_filter, List.mem_eraseDups]
  constructor
  · rintro ⟨name, ⟨⟨⟨_, n⟩, hchild, rfl⟩, hfits⟩, rfl⟩
    exact ⟨_, rfl, mem_locations (mem_children_iff.1 hchild), hfits⟩
  · rintro ⟨name, rfl, hmem, hfits⟩
    obtain ⟨⟨k, n⟩, hentry, rfl⟩ := List.mem_map.1 hmem
    exact ⟨name, ⟨⟨(name, n), mem_children_iff.2 hentry, rfl⟩, hfits⟩, rfl⟩

theorem nodup_fitting (t : Tree) (tokens : List Token) (l : Location) :
    (t.fitting tokens l).Nodup :=
  ((nodup_eraseDups _).filter _).map fun _ _ h => (List.cons.inj (List.append_cancel_left h)).1

/-- A name that is no plain text chooses among the entries of a folder. -/
theorem matchName_of_choice (hchoice : literal? tokens = none) :
    t.matchName tokens l = t.fitting tokens l := by
  rw [matchName, hchoice]

theorem matchNames_cons {names : List (List Token)} (hstars : tokens ≠ [Token.anyFolders]) :
    t.matchNames false (tokens :: names) l =
      (t.matchName tokens l).flatMap (t.matchNames false names) := by
  rw [matchNames, if_neg hstars, if_neg Bool.false_ne_true]

theorem matchNames_singleton (hstars : tokens ≠ [Token.anyFolders]) :
    t.matchNames false [tokens] l = t.matchName tokens l := by
  rw [matchNames_cons hstars]
  exact List.flatMap_singleton' _

/-- Names none of which is two stars are followed one after another. -/
theorem matchNames_append {names more : List (List Token)}
    (hnames : ∀ tokens ∈ names, tokens ≠ [Token.anyFolders]) :
    t.matchNames false (names ++ more) l =
      (t.matchNames false names l).flatMap (t.matchNames false more) := by
  induction names generalizing l with
  | nil => exact (List.flatMap_singleton ..).symm
  | cons tokens names ih =>
    obtain ⟨htokens, hnames⟩ := List.forall_mem_cons.1 hnames
    rw [List.cons_append, matchNames_cons htokens, matchNames_cons htokens, List.flatMap_assoc]
    exact congrArg (List.flatMap · _) (funext fun m => ih hnames)

/-- From different places one gets to different entries inside of them. -/
theorem nodup_flatMap_inside {ls : List Location} {f : Location → List Location}
    (hls : ls.Nodup) (hnodup : ∀ m, (f m).Nodup)
    (hinside : ∀ m, ∀ k ∈ f m, ∃ name, k = m ++ [name]) : (ls.flatMap f).Nodup := by
  refine List.nodup_flatMap.2 ⟨fun m _ => hnodup m, hls.imp fun {m m'} hne k hk hk' => hne ?_⟩
  obtain ⟨name, rfl⟩ := hinside m k hk
  obtain ⟨name', heq⟩ := hinside m' _ hk'
  exact (List.append_inj' heq rfl).1

/-- A name that is nothing but characters leads to the entry of that name. -/
theorem matchName_literally {p : String} (hempty : p ≠ "") (hdot : p ≠ ".") (hup : p ≠ "..") :
    t.matchName (literally p.toList) here =
      if (t.node? (here ++ [p])).isSome then [here ++ [p]] else [] := by
  rw [matchName, literal?_literally]
  split
  · rename_i heq
    exact absurd (String.toList_inj.1 (Option.some.inj heq)) hempty
  · rename_i heq
    exact absurd (String.toList_inj.1 (Option.some.inj heq)) hdot
  · rename_i heq
    exact absurd (String.toList_inj.1 (Option.some.inj heq)) hup
  · rename_i heq
    obtain rfl := Option.some.inj heq
    rw [String.ofList_toList]
  · rename_i heq
    exact absurd heq nofun

/-- Nothing between two slashes leads nowhere, and so does a dot. -/
theorem matchName_here {p : String} (hhere : t.hasFolder here = true)
    (hp : ¬ PathText.isStep p = true) : t.matchName (literally p.toList) here = [here] := by
  have hp : p = "" ∨ p = "." := by
    rw [PathText.isStep] at hp
    by_contra hnot
    rw [not_or] at hnot
    exact hp (by simpa using hnot)
  rcases hp with rfl | rfl
  · rfl
  · show (if t.hasFolder here then [here] else []) = _
    rw [if_pos hhere]

theorem matchName_up (hhere : t.hasFolder here = true) :
    t.matchName (literally "..".toList) here = [here.dropLast] := by
  show (if t.hasFolder here then [here.dropLast] else []) = _
  rw [if_pos hhere]

/-- The pieces of a path, one after another, lead where the path leads. -/
theorem matchNames_literally {pieces : List String} (hl : t.hasFolder l = true)
    (h : t.follow here (pieces.filter PathText.isStep) = .ok l) :
    t.matchNames false (pieces.map fun p => literally p.toList) here = [l] := by
  have hfolder : ∀ {here : Location} {ps : List String}, t.follow here ps = .ok l →
      t.hasFolder here = true := by
    intro here ps h
    cases ps with
    | nil => rwa [Except.ok.inj h]
    | cons p ps => exact hasFolder_of_follow h
  induction pieces generalizing here with
  | nil =>
    obtain rfl := Except.ok.inj h
    rfl
  | cons p pieces ih =>
    have hhere := hfolder h
    -- from one folder each name leads to one place, so there is never more than one
    have hstep : ∀ there, t.matchName (literally p.toList) here = [there] →
        t.follow there (pieces.filter PathText.isStep) = .ok l →
        t.matchNames false ((p :: pieces).map fun p => literally p.toList) here = [l] := by
      intro there hthere hrest
      rw [List.map_cons, matchNames_cons (literally_ne _), hthere, List.flatMap_singleton]
      exact ih hrest
    rw [List.filter_cons] at h
    split at h
    · rename_i hp
      obtain ⟨hempty, hdot⟩ : p ≠ "" ∧ p ≠ "." := by
        simpa [PathText.isStep] using hp
      rw [follow_cons hhere] at h
      refine hstep _ ?_ h
      by_cases hup : p = ".."
      · rw [hup]
        exact matchName_up hhere
      · rw [stepFrom, if_neg hdot, if_neg hup] at h ⊢
        rw [matchName_literally hempty hdot hup, hasFolder_iff.1 (hfolder h)]
        rfl
    · rename_i hp
      exact hstep here (matchName_here hhere hp) h

/-! ### The entries of a folder -/

variable {folder pattern : String} {ending : List Char}

theorem matchNames_pieces (hplace : t.locate here folder = .ok l) (hl : t.hasFolder l = true) :
    t.matchNames false ((PathText.pieces folder).map literally)
      (if PathText.isAbsolute folder then [] else here) = [l] := by
  have htexts : (PathText.pieces folder).map literally =
      ((PathText.pieces folder).map String.ofList).map fun p => literally p.toList := by
    rw [List.map_map]
    refine List.map_congr_left fun piece _ => ?_
    rw [Function.comp_apply, String.toList_ofList]
  obtain ⟨-, hfollow, -⟩ := locate_eq_ok.1 hplace
  rw [htexts]
  refine matchNames_literally hl ?_
  rcases PathText.parts_eq_or folder with hparts | hparts
  · rwa [← hparts]
  · rw [hparts] at hfollow
    rwa [follow_cons (hasFolder_of_follow hfollow), stepFrom, if_pos rfl] at hfollow

/-- A pattern behind a path gives those entries that fit of the folders to which the names lead as
which the path is read, each once if the names lead to no folder in two ways. -/
theorem matching_join {names : List (List Token)} (hread : PathText.ReadAs folder names)
    (hpattern : IsFileName pattern) (hstar : pattern.toList = '*' :: ending)
    (hending : IsLiteral ending) {ls : List Location}
    (hls : t.matchNames false names (if PathText.isAbsolute folder then [] else here) = ls) :
    ∃ ks, t.matching here (PathText.join folder pattern) = .ok ks ∧ (ls.Nodup → ks.Nodup) ∧
      ∀ k, k ∈ ks ↔
        ∃ l ∈ ls, ∃ name, k = l ++ [name] ∧ k ∈ t.locations ∧ ending <:+ name.toList := by
  have hlast : Reads pattern.toList (endingIn ending) := hstar ▸ reads_star hending
  have hparse : ∃ tokens, parse (PathText.join folder pattern).toList = .ok tokens := by
    obtain ⟨tokens, hopens⟩ := hread.opens
    have hslash : IsLiteral ['/'] := by decide
    rw [PathText.toList_join_of_open hread.ne_empty hread.no_slash hpattern, List.append_cons]
    exact ⟨_, ((hopens.append (opens_literally hslash)) _ _ hlast).parse⟩
  obtain ⟨tokens, hparse⟩ := hparse
  have hnames : (PathText.pieces (PathText.join folder pattern)).mapM parse =
      .ok (names ++ [endingIn ending]) := by
    rw [PathText.pieces_join hread.ne_empty hread.no_slash hpattern]
    refine mapM_eq_ok.2 (List.rel_append (hread.pieces.imp fun _ _ => Reads.parse) ?_)
    exact .cons hlast.parse .nil
  -- from each folder to which the path leads, the last name chooses among the entries there
  have hfound : t.matchNames false (names ++ [endingIn ending])
      (if PathText.isAbsolute (PathText.join folder pattern) then [] else here) =
        ls.flatMap (t.fitting (endingIn ending)) := by
    rw [PathText.isAbsolute_join hread.ne_empty hpattern, matchNames_append hread.no_stars, hls]
    have hstars : endingIn ending ≠ [Token.anyFolders] := nofun
    refine congrArg (List.flatMap · ls) (funext fun m => ?_)
    rw [matchNames_singleton hstars, matchName_of_choice rfl]
  have hmatching : t.matching here (PathText.join folder pattern) =
      .ok ((ls.flatMap (t.fitting (endingIn ending))).mergeSort
        fun a b => !List.lex b a (· < ·)) := by
    rw [matching, hparse, ← hfound]
    show ((PathText.pieces (PathText.join folder pattern)).mapM parse >>= _) = _
    rw [hnames]
    rfl
  refine ⟨_, hmatching, fun hnodup => ?_, fun k => ?_⟩
  · refine (List.mergeSort_perm ..).nodup_iff.2
      (nodup_flatMap_inside hnodup (t.nodup_fitting _) fun m k hk => ?_)
    obtain ⟨name, hk, -⟩ := mem_fitting.1 hk
    exact ⟨name, hk⟩
  · rw [List.mem_mergeSort, List.mem_flatMap]
    simp only [mem_fitting, accepts_endingIn_iff]

/-! ### A character in brackets -/

theorem mem_matchName_literally {name : String} (hname : IsFileName name) :
    k ∈ t.matchName (literally name.toList) l ↔ k = l ++ [name] ∧ t.node? k ≠ none := by
  rw [matchName_literally hname.ne_empty hname.ne_here hname.ne_up]
  split
  · rename_i hthere
    rw [List.mem_singleton]
    constructor
    · rintro rfl
      exact ⟨rfl, Option.isSome_iff_ne_none.1 hthere⟩
    · exact fun h => h.1
  · rename_i hmissing
    refine ⟨fun h => absurd h List.not_mem_nil, ?_⟩
    rintro ⟨rfl, hthere⟩
    exact absurd (Option.isSome_iff_ne_none.2 hthere) hmissing

/-- The entries to which a name with a character in brackets leads, and then a name. -/
theorem mem_matchNames_bracketed (ht : t.Sound) {name other : String} {front : List Char} {c : Char}
    (hname : IsFileName name) (hother : other.toList = front ++ [c]) :
    k ∈ t.matchNames false [bracketed front c, literally name.toList] l ↔
      k = l ++ [other] ++ [name] ∧ t.node? k ≠ none := by
  have hfirst : ∀ m, m ∈ t.fitting (bracketed front c) l ↔
      m = l ++ [other] ∧ m ∈ t.locations := by
    intro m
    simp only [mem_fitting, accepts_bracketed_iff, ← hother, String.toList_inj]
    constructor
    · rintro ⟨name, rfl, hmem, rfl⟩
      exact ⟨rfl, hmem⟩
    · rintro ⟨rfl, hmem⟩
      exact ⟨other, rfl, hmem, rfl⟩
  rw [matchNames_cons (bracketed_ne _ _), matchName_of_choice (literal?_bracketed _ _),
    List.mem_flatMap]
  simp only [hfirst, matchNames_singleton (literally_ne _), mem_matchName_literally hname]
  constructor
  · rintro ⟨m, ⟨rfl, -⟩, hk⟩
    exact hk
  · rintro ⟨rfl, hthere⟩
    -- nothing stands in a folder that is not there
    obtain ⟨n, hn⟩ := Option.ne_none_iff_exists'.1 hthere
    have hfolder := hasFolder_iff.1 (ht.of_node? hn).2
    refine ⟨_, ⟨rfl, (ht.mem_locations_iff (List.concat_ne_nil _ _)).2 ?_⟩, rfl, hthere⟩
    rw [hfolder]
    exact nofun

theorem nodup_matchNames_bracketed (t : Tree) {name : String} (hname : IsFileName name)
    (front : List Char) (c : Char) (l : Location) :
    (t.matchNames false [bracketed front c, literally name.toList] l).Nodup := by
  rw [matchNames_cons (bracketed_ne _ _), matchName_of_choice (literal?_bracketed _ _)]
  refine nodup_flatMap_inside (t.nodup_fitting _ _) (fun m => ?_) fun m k hk => ?_
  · rw [matchNames_singleton (literally_ne _),
      matchName_literally hname.ne_empty hname.ne_here hname.ne_up]
    split
    · exact List.nodup_singleton _
    · exact List.nodup_nil
  · rw [matchNames_singleton (literally_ne _)] at hk
    exact ⟨name, ((mem_matchName_literally hname).1 hk).1⟩

end Tree

end Mailroom
