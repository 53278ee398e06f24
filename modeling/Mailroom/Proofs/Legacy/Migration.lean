/-
A legacy mailbox is taken over from the folder where it is.

A file that is taken over is skipped, or its message is found to be there, or it is added; and that
is counted. The files are those to which patterns lead that begin with the path of the mailbox. If
no character of the path opens something in a pattern, they are the entries of its folders that are
named `*.toon`. Otherwise they can be files of another folder.

* `takeOverFile_cases` — what can come of a file;
* `TakesOver` — what holds of some files after they were taken over; of one file
  (`takesOver_file`) and so of all (`takesOver_all`);
* `legacyFiles_eq`, `legacyFiles_of_brackets` — the files of one of the folders;
* `takes_over_its_own_files` — the whole of a mailbox, if its path is free of patterns;
* `takeOver_of_brackets` — what is taken over instead if its name has brackets.
-/
import Mailroom.Proofs.Files.Patterns
import Mailroom.Proofs.Legacy.TakeOver
import Mailroom.Proofs.Transport.Stream

namespace Mailroom

open NamePattern

/-! ### File by file -/

variable {w : Surroundings}

/-- What can come of a file: it is skipped, its message is there already, or it is added. -/
theorem takeOverFile_cases (w : Surroundings) (archived : Bool) (s : Store) (report : Import)
    (k : Location) :
    legacyMessage? w archived k = none ∧ takeOverFile w archived (s, report) k =
        (s, { report with skipped := report.skipped + 1 }) ∨
      ∃ m, legacyMessage? w archived k = some m ∧
        (m.id ∈ s.ids ∧ takeOverFile w archived (s, report) k =
            (s, { report with duplicates := report.duplicates + 1 }) ∨
          m.id ∉ s.ids ∧ takeOverFile w archived (s, report) k =
            ({ s with messages := s.messages ++ [m.row] },
              { report with imported := report.imported + 1 })) := by
  unfold takeOverFile legacyMessage?
  cases w.tree.readText k with
  | error e => exact .inl ⟨rfl, rfl⟩
  | ok content =>
    dsimp only
    cases LegacyRecord.parse content archived with
    | error e => exact .inl ⟨rfl, rfl⟩
    | ok m =>
      refine .inr ⟨m, rfl, ?_⟩
      dsimp only
      rw [Store.ingest]
      split
      · rename_i hheld
        exact .inl ⟨Store.holds_iff.1 hheld, rfl⟩
      · rename_i hfree
        exact .inr ⟨fun hheld => hfree (Store.holds_iff.2 hheld), rfl⟩

/-- Takes over some files, each of which comes from the archive or not. -/
def takeOverAll (w : Surroundings) (files : List (Location × Bool)) (state : Store × Import) :
    Store × Import :=
  files.foldl (fun state f => takeOverFile w f.2 state f.1) state

/-- The messages of some files, as far as they hold records. -/
def messagesOf (w : Surroundings) (files : List (Location × Bool)) : List Message :=
  files.filterMap fun f => legacyMessage? w f.2 f.1

theorem messagesOf_singleton (w : Surroundings) (f : Location × Bool) :
    messagesOf w [f] = (legacyMessage? w f.2 f.1).toList := by
  cases h : legacyMessage? w f.2 f.1 with
  | none => exact List.filterMap_cons_none h
  | some m => exact List.filterMap_cons_some h

/-- After some files, each of them is counted, those without a record as skipped and those whose
message is new as imported, and each message that they hold is stored. -/
structure TakesOver (w : Surroundings) (files : List (Location × Bool))
    (before after : Store × Import) : Prop where
  counted : after.2.imported + after.2.duplicates + after.2.skipped =
    before.2.imported + before.2.duplicates + before.2.skipped + files.length
  skipped : after.2.skipped + (messagesOf w files).length = before.2.skipped + files.length
  imported : ∃ new, Adds before.1 new after.1 ∧ new.Sublist (messagesOf w files) ∧
    after.2.imported = before.2.imported + new.length
  stored : ∀ m ∈ messagesOf w files, m.id ∈ after.1.ids

theorem takesOver_nil (state : Store × Import) : TakesOver w [] state state where
  counted := rfl
  skipped := rfl
  imported := ⟨[], .of_messages_eq rfl, .slnil, rfl⟩
  stored := List.forall_mem_nil _

theorem takesOver_append {files more : List (Location × Bool)}
    {before between after : Store × Import} (h : TakesOver w files before between)
    (h' : TakesOver w more between after) : TakesOver w (files ++ more) before after := by
  have hmessages : messagesOf w (files ++ more) = messagesOf w files ++ messagesOf w more :=
    List.filterMap_append
  obtain ⟨new, hadds, hsub, himported⟩ := h.imported
  obtain ⟨new', hadds', hsub', himported'⟩ := h'.imported
  refine ⟨?_, ?_, ⟨new ++ new', hadds.trans hadds', ?_, ?_⟩, ?_⟩
  · rw [h'.counted, h.counted, List.length_append, Nat.add_assoc]
  · have hfirst := h.skipped
    have hsecond := h'.skipped
    rw [hmessages, List.length_append, List.length_append]
    omega
  · rw [hmessages]
    exact hsub.append hsub'
  · rw [himported', himported, List.length_append, Nat.add_assoc]
  · rw [hmessages]
    intro m hm
    rcases List.mem_append.1 hm with hm | hm
    · exact hadds'.subset_ids (h.stored m hm)
    · exact h'.stored m hm

theorem takesOver_file (f : Location × Bool) (state : Store × Import) :
    TakesOver w [f] state (takeOverFile w f.2 state f.1) := by
  obtain ⟨k, archived⟩ := f
  obtain ⟨s, report⟩ := state
  have hmessages := messagesOf_singleton w (k, archived)
  dsimp only at hmessages ⊢
  rcases takeOverFile_cases w archived s report k with
    ⟨hnone, hfile⟩ | ⟨m, hm, ⟨hheld, hfile⟩ | ⟨hfree, hfile⟩⟩
  · rw [hnone] at hmessages
    rw [hfile]
    refine ⟨rfl, by rw [hmessages]; rfl, ⟨[], .of_messages_eq rfl, List.nil_sublist _, rfl⟩, ?_⟩
    rw [hmessages]
    exact List.forall_mem_nil _
  · rw [hm] at hmessages
    rw [hfile]
    refine ⟨?_, by rw [hmessages]; rfl, ⟨[], .of_messages_eq rfl, List.nil_sublist _, rfl⟩, ?_⟩
    · dsimp only [List.length_singleton]
      omega
    · rw [hmessages]
      exact List.forall_mem_singleton.2 hheld
  · have hadds : Adds s [m] { s with messages := s.messages ++ [m.row] } :=
      ⟨rfl, List.nodup_singleton _, List.forall_mem_singleton.2 hfree⟩
    rw [hm] at hmessages
    rw [hfile]
    refine ⟨?_, by rw [hmessages]; rfl, ⟨[m], hadds, hmessages ▸ List.Sublist.refl _, rfl⟩, ?_⟩
    · dsimp only [List.length_singleton]
      omega
    · rw [hmessages, hadds.ids_eq]
      exact List.forall_mem_singleton.2 (List.mem_append_right _ (List.mem_singleton_self _))

theorem takesOver_all (files : List (Location × Bool)) (state : Store × Import) :
    TakesOver w files state (takeOverAll w files state) := by
  induction files generalizing state with
  | nil => exact takesOver_nil state
  | cons f files ih => exact takesOver_append (takesOver_file f state) (ih _)

/-! ### Folder by folder -/

/-- If the files of each folder are known, they are taken over one after another. -/
theorem takeOverFolders_of_files {path : String} {files : String × Bool → List Location}
    {folders : List (String × Bool)}
    (h : ∀ p ∈ folders, legacyFiles w (PathText.join path p.1) = .ok (files p))
    (state : Store × Import) :
    takeOverFolders w path folders state =
      let after := takeOverAll w (folders.flatMap fun p => (files p).map (·, p.2)) state
      (.ok after.2, after.1) := by
  induction folders generalizing state with
  | nil => rfl
  | cons p folders ih =>
    obtain ⟨hp, hfolders⟩ := List.forall_mem_cons.1 h
    obtain ⟨name, archived⟩ := p
    rw [takeOverFolders_cons, hp]
    dsimp only
    rw [ih hfolders, List.flatMap_cons, takeOverAll, takeOverAll, List.foldl_append, List.foldl_map]

/-- An entry of a folder with a name that ends in `.toon`. -/
def IsToonEntry (t : Tree) (folder k : Location) : Prop :=
  t.hasFolder folder = true ∧ k ∈ t.locations ∧
    ∃ name : String, k = folder ++ [name] ∧ ".toon".toList <:+ name.toList

theorem isFileName_of_mem_legacyFolders {p : String × Bool} (hp : p ∈ legacyFolders) :
    IsFileName p.1 ∧ IsLiteral p.1.toList := by
  have hall : ∀ p ∈ legacyFolders, IsFileName p.1 ∧ IsLiteral p.1.toList := by decide
  exact hall p hp

theorem isFolder_eq {path : String} {l : Location} (hplace : w.locate path = .ok l) :
    w.isFolder path = w.tree.hasFolder l := by
  rw [Surroundings.isFolder, Surroundings.node?, hplace]
  rfl

/-- The files of a folder at a path: those to which a pattern behind the path leads. -/
theorem legacyFiles_of_readAs {folder : String} {place : Location} {names : List (List Token)}
    {ls : List Location} (hread : PathText.ReadAs folder names)
    (hplace : w.locate folder = .ok place)
    (hls : w.tree.hasFolder place = true → w.tree.matchNames false names
      (if PathText.isAbsolute folder then [] else w.folder) = ls)
    (hnodup : ls.Nodup) :
    ∃ ks, legacyFiles w folder = .ok ks ∧ ks.Nodup ∧
      ∀ k, k ∈ ks ↔ w.tree.hasFolder place = true ∧
        ∃ l ∈ ls, ∃ name : String, k = l ++ [name] ∧ k ∈ w.tree.locations ∧
          ".toon".toList <:+ name.toList := by
  rw [legacyFiles, isFolder_eq hplace]
  by_cases hthere : w.tree.hasFolder place = true
  · have hpattern : IsFileName "*.toon" := by decide
    have hstar : "*.toon".toList = '*' :: ".toon".toList := by decide
    obtain ⟨ks, hmatching, honce, hks⟩ :=
      Tree.matching_join hread hpattern hstar (by decide) (hls hthere)
    refine ⟨ks, ?_, honce hnodup, fun k => ?_⟩
    · rw [if_pos hthere, hmatching]
      rfl
    · rw [hks, and_iff_right hthere]
  · rw [if_neg hthere]
    exact ⟨[], rfl, List.nodup_nil, fun k =>
      ⟨fun hk => absurd hk List.not_mem_nil, fun hk => absurd hk.1 hthere⟩⟩

/-- The files of a folder of a legacy mailbox whose path is free of patterns. -/
theorem legacyFiles_eq {path name : String} {l : Location} (hplace : w.locate path = .ok l)
    (hl : w.tree.hasFolder l = true) (hliteral : IsLiteral path.toList) (hname : IsFileName name)
    (hchars : IsLiteral name.toList) :
    ∃ ks, legacyFiles w (PathText.join path name) = .ok ks ∧ ks.Nodup ∧
      ∀ k, k ∈ ks ↔ IsToonEntry w.tree (l ++ [name]) k := by
  have hpath : path ≠ "" := (Tree.locate_eq_ok.1 hplace).1
  have hinside : w.locate (PathText.join path name) = .ok (l ++ [name]) :=
    Tree.locate_join hplace hl hname
  have hread := PathText.readAs_of_isLiteral (PathText.join_ne_empty hpath hname)
    (PathText.getLast?_join hpath hname) (PathText.isLiteral_join hpath hname hliteral hchars)
  obtain ⟨ks, hfiles, hnodup, hks⟩ := legacyFiles_of_readAs hread hinside
    (Tree.matchNames_pieces hinside) (List.nodup_singleton _)
  refine ⟨ks, hfiles, hnodup, fun k => ?_⟩
  rw [hks, IsToonEntry]
  refine and_congr_right fun _ => ?_
  simp only [List.mem_singleton, exists_eq_left]
  constructor
  · rintro ⟨entry, hk, hmem, hending⟩
    exact ⟨hmem, entry, hk, hending⟩
  · rintro ⟨hmem, entry, hk, hending⟩
    exact ⟨entry, hk, hmem, hending⟩

/-- The entries of several folders in a folder, each once. -/
theorem nodup_flatMap_entries {t : Tree} {l : Location} {folders : List (String × Bool)}
    {files : String × Bool → List Location} (hnames : (folders.map Prod.fst).Nodup)
    (hnodup : ∀ p ∈ folders, (files p).Nodup)
    (hfiles : ∀ p ∈ folders, ∀ k ∈ files p, IsToonEntry t (l ++ [p.1]) k) :
    ((folders.flatMap fun p => (files p).map (·, p.2)).map Prod.fst).Nodup := by
  have hlocations : (folders.flatMap fun p => (files p).map (·, p.2)).map Prod.fst =
      folders.flatMap files := by
    simp [List.map_flatMap, Function.comp_def]
  rw [hlocations, List.nodup_flatMap]
  -- entries of folders with different names stand at different locations
  refine ⟨hnodup, (List.pairwise_map.1 hnames).imp_of_mem fun {p q} hp hq hne k hkp hkq => hne ?_⟩
  obtain ⟨-, -, entry, hk, -⟩ := hfiles p hp k hkp
  obtain ⟨-, -, entry', hk', -⟩ := hfiles q hq k hkq
  rw [hk, List.append_assoc, List.append_assoc] at hk'
  exact (List.cons.inj (List.append_cancel_left hk')).1

theorem mem_flatMap_files {folders : List (String × Bool)}
    {inFolder : String × Bool → List Location} {k : Location} {archived : Bool} :
    (k, archived) ∈ folders.flatMap (fun p => (inFolder p).map (·, p.2)) ↔
      ∃ name, (name, archived) ∈ folders ∧ k ∈ inFolder (name, archived) := by
  rw [List.mem_flatMap]
  constructor
  · rintro ⟨p, hp, hk⟩
    obtain ⟨k', hk', heq⟩ := List.mem_map.1 hk
    obtain ⟨rfl, rfl⟩ := Prod.mk.inj heq
    exact ⟨p.1, hp, hk'⟩
  · rintro ⟨name, hname, hk⟩
    exact ⟨_, hname, List.mem_map_of_mem hk⟩

/-- If the files of each folder are known to be entries of a folder of the same name, all of them
are taken over, one after another. -/
theorem takeOver_of_entries {path : String} {l : Location} {Among : String → Location → Prop}
    (hfolder : w.isFolder path = true)
    (hamong : ∀ name k, Among name k → IsToonEntry w.tree (l ++ [name]) k)
    (h : ∀ p ∈ legacyFolders, ∃ ks, legacyFiles w (PathText.join path p.1) = .ok ks ∧ ks.Nodup ∧
      ∀ k, k ∈ ks ↔ Among p.1 k) (s : Store) :
    ∃ files report s',
      (files.map Prod.fst).Nodup ∧
      (∀ k archived, (k, archived) ∈ files ↔
        ∃ name, (name, archived) ∈ legacyFolders ∧ Among name k) ∧
      s.takeOver w path = (.ok report, s') ∧
      takeOverAll w files (s, ⟨0, 0, 0⟩) = (s', report) := by
  choose! inFolder hread hnodup hentries using h
  refine ⟨legacyFolders.flatMap fun p => (inFolder p).map (·, p.2), _, _, ?_, ?_, ?_, rfl⟩
  · exact nodup_flatMap_entries (by decide) hnodup fun p hp k hk =>
      hamong _ k ((hentries p hp k).1 hk)
  · intro k archived
    rw [mem_flatMap_files]
    exact exists_congr fun name => and_congr_right fun hname => hentries _ hname k
  · rw [Store.takeOver, if_pos hfolder]
    exact takeOverFolders_of_files hread _

/-! ### Two mailboxes side by side -/

/-- A file that holds the record of a message with an id. -/
def recordFile (id : String) : Node :=
  .file ⟨.bytes (Text.encodeUtf8 ("<!--TOON:message\x7bid\x7d:\n" ++ id ++
    ",a,b,request,normal,none,2025-01-01T00:00:00Z,unread\n-->\nhello")), 0⟩

/-- The message of such a record. -/
def fromRecord (id : String) : Message :=
  ⟨id, "a", "b", .request, .normal, noConvoy, "hello", .unread, "2025-01-01T00:00:00.000Z", none,
    none⟩

/-- Two legacy mailboxes, one of them with brackets in its name. -/
def sideBySide : Surroundings :=
  { Surroundings.bare with
    tree := ⟨[(["mail"], .folder),
      (["mail", "old1"], .folder),
      (["mail", "old1", "inbox"], .folder),
      (["mail", "old1", "inbox", "1.toon"], recordFile "m1"),
      (["mail", "old1", "inbox", "2.text"], recordFile "m2"),
      (["mail", "old[1]"], .folder),
      (["mail", "old[1]", "inbox"], .folder),
      (["mail", "old[1]", "inbox", "3.toon"], recordFile "m3")]⟩ }

theorem m1_stands_in_old1 :
    IsToonEntry sideBySide.tree ["mail", "old1", "inbox"] ["mail", "old1", "inbox", "1.toon"] ∧
      legacyMessage? sideBySide false ["mail", "old1", "inbox", "1.toon"] =
        some (fromRecord "m1") :=
  ⟨⟨rfl, by decide, "1.toon", rfl, by decide⟩, by decide +kernel⟩

/-! ### The whole of a mailbox -/

/-- A legacy mailbox at a path that is free of patterns is taken over file by file: the entries of
its folders that are named `*.toon`, each once, and nothing else. Each is counted, each message that
they hold is stored afterwards, and what is added comes from them. -/
theorem takes_over_its_own_files (s : Store) {w : Surroundings} {path : String} {l : Location}
    (hplace : w.locate path = .ok l) (hl : w.tree.hasFolder l = true)
    (hliteral : IsLiteral path.toList) :
    ∃ files report s' new,
      (files.map Prod.fst).Nodup ∧
      (∀ k archived, (k, archived) ∈ files ↔
        ∃ name, (name, archived) ∈ legacyFolders ∧ IsToonEntry w.tree (l ++ [name]) k) ∧
      s.takeOver w path = (.ok report, s') ∧
      takeOverAll w files (s, ⟨0, 0, 0⟩) = (s', report) ∧
      report.imported + report.duplicates + report.skipped = files.length ∧
      report.skipped + (messagesOf w files).length = files.length ∧
      (∀ m ∈ messagesOf w files, m.id ∈ s'.ids) ∧
      Adds s new s' ∧ new.length = report.imported ∧ new ⊆ messagesOf w files := by
  have hread : ∀ p ∈ legacyFolders, ∃ ks, legacyFiles w (PathText.join path p.1) = .ok ks ∧
      ks.Nodup ∧ ∀ k, k ∈ ks ↔ IsToonEntry w.tree (l ++ [p.1]) k := by
    intro p hp
    obtain ⟨hname, hchars⟩ := isFileName_of_mem_legacyFolders hp
    exact legacyFiles_eq hplace hl hliteral hname hchars
  obtain ⟨files, report, s', hnodup, hfiles, htaken, hall⟩ :=
    takeOver_of_entries ((isFolder_eq hplace).trans hl) (fun _ _ hk => hk) hread s
  have htakes := takesOver_all (w := w) files (s, ⟨0, 0, 0⟩)
  rw [hall] at htakes
  obtain ⟨new, hadds, hsub, himported⟩ := htakes.imported
  refine ⟨files, report, s', new, hnodup, hfiles, htaken, hall, ?_, ?_, htakes.stored, hadds, ?_,
    hsub.subset⟩
  · simpa using htakes.counted
  · simpa using htakes.skipped
  · simpa using himported.symm

theorem takes_over_its_own_files_old1 :
    sideBySide.locate "/mail/old1" = .ok ["mail", "old1"] ∧
      sideBySide.tree.hasFolder ["mail", "old1"] = true ∧ IsLiteral "/mail/old1".toList ∧
      ∃ report s', Store.empty.takeOver sideBySide "/mail/old1" = (.ok report, s') ∧
        "m1" ∈ s'.ids := by
  have hplace : sideBySide.locate "/mail/old1" = .ok ["mail", "old1"] := by decide +kernel
  have hl : sideBySide.tree.hasFolder ["mail", "old1"] = true := rfl
  have hliteral : IsLiteral "/mail/old1".toList := by decide
  obtain ⟨files, report, s', new, -, hfiles, htaken, -, -, -, hstored, -⟩ :=
    takes_over_its_own_files .empty hplace hl hliteral
  obtain ⟨hentry, hrecord⟩ := m1_stands_in_old1
  have hfile := (hfiles _ false).2 ⟨"inbox", by decide, hentry⟩
  exact ⟨hplace, hl, hliteral, report, s', htaken,
    hstored (fromRecord "m1") (List.mem_filterMap.2 ⟨_, hfile, hrecord⟩)⟩

/-! ### Brackets in the name of the mailbox -/

section

variable {parent given other : String} {front : List Char} {c : Char} {p : Location}
  (ht : w.tree.Sound) (hplace : w.locate parent = .ok p) (hp : w.tree.hasFolder p = true)
  (hliteral : IsLiteral parent.toList) (hslash : parent.toList.getLast? ≠ some '/')
  (hgiven : IsFileName given) (hthere : w.tree.hasFolder (p ++ [given]) = true)
  (hbrackets : given.toList = front ++ ['[', c, ']']) (hfront : IsLiteral front) (hc : c ≠ '!')
  (hother : other.toList = front ++ [c])

include ht hplace hp hliteral hslash hgiven hthere hbrackets hfront hc hother

theorem legacyFiles_of_brackets {name : String} (hname : IsFileName name)
    (hchars : IsLiteral name.toList) :
    ∃ ks, legacyFiles w (PathText.join (PathText.join parent given) name) = .ok ks ∧ ks.Nodup ∧
      ∀ k, k ∈ ks ↔ w.tree.hasFolder (p ++ [given] ++ [name]) = true ∧
        IsToonEntry w.tree (p ++ [other] ++ [name]) k := by
  have hparent : parent ≠ "" := (Tree.locate_eq_ok.1 hplace).1
  have hopens : Opens given.toList (bracketed front c) := hbrackets ▸ opens_bracketed hfront hc
  have hread := ((PathText.readAs_of_isLiteral hparent hslash hliteral).join hgiven hopens
    (bracketed_ne _ _)).join hname (opens_literally hchars) (literally_ne _)
  have hinside := Tree.locate_join (Tree.locate_join hplace hp hgiven) hthere hname
  -- up to the folder around the mailbox the pattern is a path
  have hls : w.tree.matchNames false
      ((PathText.pieces parent).map literally ++ [bracketed front c] ++ [literally name.toList])
        (if PathText.isAbsolute (PathText.join (PathText.join parent given) name) then []
          else w.folder) =
      w.tree.matchNames false [bracketed front c, literally name.toList] p := by
    rw [PathText.isAbsolute_join (PathText.join_ne_empty hparent hgiven) hname,
      PathText.isAbsolute_join hparent hgiven, List.append_assoc,
      Tree.matchNames_append (List.forall_mem_map.2 fun piece _ => literally_ne piece),
      Tree.matchNames_pieces hplace hp, List.flatMap_singleton]
    rfl
  obtain ⟨ks, hfiles, hnodup, hks⟩ := legacyFiles_of_readAs hread hinside (fun _ => hls)
    (w.tree.nodup_matchNames_bracketed hname front c p)
  refine ⟨ks, hfiles, hnodup, fun k => ?_⟩
  rw [hks]
  refine and_congr_right fun _ => ?_
  simp only [Tree.mem_matchNames_bracketed ht hname hother]
  constructor
  · rintro ⟨l, ⟨rfl, -⟩, entry, rfl, hmem, hending⟩
    -- what stands in the tree stands in a folder
    obtain ⟨folder, entry', heq, -, hfolder⟩ := ht.placed _ hmem
    obtain ⟨rfl, -⟩ := List.append_inj' heq rfl
    exact ⟨hfolder, hmem, entry, rfl, hending⟩
  · rintro ⟨hfolder, hmem, entry, hk, hending⟩
    refine ⟨_, ⟨rfl, ?_⟩, entry, hk, hmem, hending⟩
    rw [Tree.hasFolder_iff.1 hfolder]
    exact nofun

/-- If the name of the mailbox ends with a character in brackets, the files are those of the folder
whose name has the character without them, and none of the mailbox itself. -/
theorem takeOver_of_brackets (s : Store) :
    ∃ files report s',
      (files.map Prod.fst).Nodup ∧
      (∀ k archived, (k, archived) ∈ files ↔ ∃ name, (name, archived) ∈ legacyFolders ∧
        w.tree.hasFolder (p ++ [given] ++ [name]) = true ∧
          IsToonEntry w.tree (p ++ [other] ++ [name]) k) ∧
      s.takeOver w (PathText.join parent given) = (.ok report, s') ∧
      takeOverAll w files (s, ⟨0, 0, 0⟩) = (s', report) := by
  have hfolder := (isFolder_eq (Tree.locate_join hplace hp hgiven)).trans hthere
  refine takeOver_of_entries hfolder (fun _ _ hk => hk.2) (fun f hf => ?_) s
  obtain ⟨hname, hchars⟩ := isFileName_of_mem_legacyFolders hf
  exact legacyFiles_of_brackets ht hplace hp hliteral hslash hgiven hthere hbrackets hfront hc
    hother hname hchars

end

theorem sound_sideBySide : sideBySide.tree.Sound := by decide

/-- From a mailbox in `old[1]` the message in it is not taken over, but one in `old1` is. -/
theorem brackets_lead_elsewhere :
    sideBySide.locate "/mail/old[1]" = .ok ["mail", "old[1]"] ∧
      sideBySide.tree.hasFolder ["mail", "old[1]"] = true ∧
      IsToonEntry sideBySide.tree ["mail", "old[1]", "inbox"]
        ["mail", "old[1]", "inbox", "3.toon"] ∧
      legacyMessage? sideBySide false ["mail", "old[1]", "inbox", "3.toon"] =
        some (fromRecord "m3") ∧
      ∃ report s', Store.empty.takeOver sideBySide "/mail/old[1]" = (.ok report, s') ∧
        "m3" ∉ s'.ids ∧ "m1" ∈ s'.ids := by
  have hplace : sideBySide.locate "/mail" = .ok ["mail"] := by decide +kernel
  have hl : sideBySide.tree.hasFolder ["mail"] = true := rfl
  have hgiven : IsFileName "old[1]" := by decide
  have hthere : sideBySide.tree.hasFolder (["mail"] ++ ["old[1]"]) = true := rfl
  have hbrackets : "old[1]".toList = "old".toList ++ ['[', '1', ']'] := by decide
  have hother : "old1".toList = "old".toList ++ ['1'] := by decide
  obtain ⟨files, report, s', -, hfiles, htaken, hall⟩ :=
    takeOver_of_brackets sound_sideBySide hplace hl (by decide) (by decide) hgiven hthere hbrackets
      (by decide) (by decide) hother .empty
  obtain ⟨hentry, hrecord⟩ := m1_stands_in_old1
  have htakes := takesOver_all (w := sideBySide) files (.empty, ⟨0, 0, 0⟩)
  rw [hall] at htakes
  refine ⟨by decide +kernel, rfl, ⟨rfl, by decide, "3.toon", rfl, by decide⟩, by decide +kernel,
    report, s', htaken, ?_, ?_⟩
  · have helsewhere : ∀ k ∈ sideBySide.tree.locations, ["mail", "old1"] <+: k → ∀ archived : Bool,
        (legacyMessage? sideBySide archived k).map (·.id) ≠ some "m3" := by decide +kernel
    -- the message would have to come from one of the files, and they are all in the other folder
    obtain ⟨new, hadds, hsub, -⟩ := htakes.imported
    rw [hadds.ids_eq]
    intro hm3
    obtain ⟨m, hm, hid⟩ := List.mem_map.1 ((List.mem_append.1 hm3).resolve_left List.not_mem_nil)
    obtain ⟨⟨k, archived⟩, hf, hrecord⟩ := List.mem_filterMap.1 (hsub.subset hm)
    obtain ⟨name, -, -, -, hmem, entry, hk, -⟩ := (hfiles _ _).1 hf
    refine helsewhere k hmem ⟨[name, entry], hk.symm⟩ archived ?_
    rw [hrecord, ← hid]
    rfl
  · have hfile := (hfiles _ false).2 ⟨"inbox", by decide, rfl, hentry⟩
    exact htakes.stored (fromRecord "m1") (List.mem_filterMap.2 ⟨_, hfile, hrecord⟩)

end Mailroom
