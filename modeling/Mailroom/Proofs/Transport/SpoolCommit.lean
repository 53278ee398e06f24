/-
What committing does to the spool.

A commit first moves the files that were fetched, one by one, to what has been taken over, and then
deletes from there what is too old. A file cannot be moved if there is a folder of its name; then
the commit fails with the files before it moved and with nothing deleted.

* `Moved` — some files of the spool have been moved, and nothing else has changed;
* `Moved.rename`, `Moved.consume` — moving one more, and moving as many as can be moved;
* `MadeRoom`, `Swept` — the folder for them has been made, and what is too old has been deleted;
* `Committed`, `LeftHalfway` — what a commit leaves behind when it succeeds and when it fails;
* `commitOutcome_spoolCommit` — every commit of files that are there.
-/
import Mailroom.Proofs.Files.Trees
import Mailroom.Transport.Simplex
import Mathlib.Data.List.TakeWhile

namespace Mailroom

/-! ### Moving -/

theorem isFileName_processedName : IsFileName processedName := by decide

/-- Where what has been taken over stands. -/
def takenOver (l : Location) (name : String) : Location := l ++ [processedName] ++ [name]

theorem entry_ne_takenOver (l : Location) (name name' : String) :
    l ++ [name] ≠ takenOver l name' := by
  intro heq
  have hlength := congrArg List.length heq
  rw [takenOver, List.length_append, List.length_append, List.length_append] at hlength
  simp at hlength

theorem entry_injective {name name' : String} (h : l ++ [name] = l ++ [name']) : name = name' :=
  List.singleton_inj.1 (List.append_cancel_left h)

theorem takenOver_ne_processed (l : Location) (name : String) :
    takenOver l name ≠ l ++ [processedName] := by
  intro heq
  have hlength := congrArg List.length heq
  rw [takenOver, List.length_append, List.length_singleton] at hlength
  omega

/-- A folder is where it was as long as none has gone. -/
theorem locate_of_hasFolder {path : String} {w w' : Surroundings} {l : Location}
    (helsewhere : w' = { w with tree := w'.tree })
    (hkept : ∀ k, w.tree.hasFolder k = true → w'.tree.hasFolder k = true)
    (hl : w.locate path = .ok l) (hfolder : w.tree.hasFolder l = true) :
    w'.locate path = .ok l := by
  rw [Surroundings.locate, helsewhere]
  exact Tree.locate_of_hasFolder hkept hl hfolder

section

variable {spool name : String} {paths : List String} {w : Surroundings} {l : Location}
  (hl : w.locate spool = .ok l) (hfolder : w.tree.hasFolder l = true)
  (hthere : w.tree.hasFolder (l ++ [processedName]) = true) (hname : IsFileName name)

include hl hfolder hthere hname

theorem locate_entry_and_takenOver :
    w.locate (PathText.join spool name) = .ok (l ++ [name]) ∧
      w.locate (PathText.join (PathText.join spool processedName) name) =
        .ok (takenOver l name) :=
  ⟨Tree.locate_join hl hfolder hname,
    Tree.locate_join (Tree.locate_join hl hfolder isFileName_processedName) hthere hname⟩

/-- A file that cannot be moved ends it. -/
theorem consume_of_stuck {e : FileFault}
    (hrename : w.tree.rename (l ++ [name]) (takenOver l name) = .error e) :
    consume (PathText.join spool processedName) (PathText.join spool name :: paths) w =
      (.error e, w) := by
  obtain ⟨hsource, htarget⟩ := locate_entry_and_takenOver hl hfolder hthere hname
  rw [consume, PathText.fileName?_join (Tree.locate_eq_ok.1 hl).1 hname]
  dsimp only
  rw [hsource, htarget]
  dsimp only [bind, Except.bind]
  rw [hrename]

theorem consume_of_renamed {tree : Tree}
    (hrename : w.tree.rename (l ++ [name]) (takenOver l name) = .ok tree) :
    consume (PathText.join spool processedName) (PathText.join spool name :: paths) w =
      consume (PathText.join spool processedName) paths { w with tree } := by
  obtain ⟨hsource, htarget⟩ := locate_entry_and_takenOver hl hfolder hthere hname
  rw [consume, PathText.fileName?_join (Tree.locate_eq_ok.1 hl).1 hname]
  dsimp only
  rw [hsource, htarget]
  dsimp only [bind, Except.bind]
  rw [hrename]

end

/-- Files of the spool have been moved to what has been taken over, and nothing else has changed. -/
structure Moved (l : Location) (files : List (String × File)) (w w' : Surroundings) : Prop where
  sound : w'.tree.Sound
  elsewhere : w' = { w with tree := w'.tree }
  hasFolder : ∀ k, w'.tree.hasFolder k = w.tree.hasFolder k
  gone : ∀ x ∈ files, w'.tree.node? (l ++ [x.1]) = none
  arrived : ∀ x ∈ files, w'.tree.node? (takenOver l x.1) = some (.file x.2)
  others : ∀ k, (∀ x ∈ files, k ≠ l ++ [x.1] ∧ k ≠ takenOver l x.1) →
    w'.tree.node? k = w.tree.node? k

namespace Moved

variable {l : Location} {files : List (String × File)} {w w' : Surroundings} {name : String}
  {f : File}

theorem refl (hw : w.tree.Sound) (l : Location) : Moved l [] w w where
  sound := hw
  elsewhere := rfl
  hasFolder _ := rfl
  gone := List.forall_mem_nil _
  arrived := List.forall_mem_nil _
  others _ _ := rfl

/-- What was not moved is where it was. -/
theorem node?_entry (h : Moved l files w w') (hnew : ∀ x ∈ files, x.1 ≠ name) :
    w'.tree.node? (l ++ [name]) = w.tree.node? (l ++ [name]) :=
  h.others _ fun x hx => ⟨fun heq => hnew x hx (entry_injective heq).symm,
    entry_ne_takenOver l name x.1⟩

theorem file?_entry (h : Moved l files w w') (hnew : ∀ x ∈ files, x.1 ≠ name)
    (hfile : w.tree.file? (l ++ [name]) = some f) : w'.tree.file? (l ++ [name]) = some f := by
  rw [Tree.file?, h.node?_entry hnew]
  exact hfile

/-- One more file is moved. -/
theorem rename (h : Moved l files w w') (hnew : ∀ x ∈ files, x.1 ≠ name)
    (hfile : w.tree.file? (l ++ [name]) = some f) {tree : Tree}
    (hrename : w'.tree.rename (l ++ [name]) (takenOver l name) = .ok tree) :
    Moved l (files ++ [(name, f)]) w { w' with tree } := by
  have hsource := h.file?_entry hnew hfile
  have hne := entry_ne_takenOver l name name
  have hname : IsFileName name := (h.sound.of_node? (Tree.file?_eq_some_iff.1 hsource)).1
  have hnode : ∀ k, tree.node? k = if k = takenOver l name then some (.file f)
      else if k = l ++ [name] then none else w'.tree.node? k := fun k =>
    Tree.node?_rename h.sound hsource hne hrename
  refine ⟨h.sound.rename hsource hne hrename hname, ?_, ?_, ?_, ?_, ?_⟩
  · rw [h.elsewhere]
  · exact fun k => (Tree.hasFolder_rename h.sound hsource hne hrename).trans (h.hasFolder k)
  · intro x hx
    rw [hnode, if_neg (entry_ne_takenOver l x.1 name)]
    rcases List.mem_append.1 hx with hx | hx
    · rw [h.gone x hx, ite_self]
    · rw [List.mem_singleton.1 hx, if_pos rfl]
  · intro x hx
    rcases List.mem_append.1 hx with hx | hx
    · have htarget : takenOver l x.1 ≠ takenOver l name := fun heq =>
        hnew x hx (entry_injective heq)
      rw [hnode, if_neg htarget, if_neg (entry_ne_takenOver l name x.1).symm, h.arrived x hx]
    · rw [List.mem_singleton.1 hx, hnode, if_pos rfl]
  · intro k hk
    obtain ⟨hks, hkt⟩ := hk (name, f) (List.mem_append_right _ (List.mem_singleton_self _))
    rw [hnode, if_neg hkt, if_neg hks]
    exact h.others k fun x hx => hk x (List.mem_append_left _ hx)

theorem locate_eq (h : Moved l files w w') {spool : String} (hl : w.locate spool = .ok l)
    (hfolder : w.tree.hasFolder l = true) : w'.locate spool = .ok l :=
  locate_of_hasFolder h.elsewhere (fun k hk => (h.hasFolder k).trans hk) hl hfolder

/-- As many files are moved as there are before the first one that cannot be moved. -/
theorem consume {spool : String} (hl : w.locate spool = .ok l) (hfolder : w.tree.hasFolder l = true)
    (hthere : w.tree.hasFolder (l ++ [processedName]) = true) {todo : List (String × File)}
    (hfiles : ∀ x ∈ todo, w.tree.file? (l ++ [x.1]) = some x.2)
    (hdistinct : ((files ++ todo).map Prod.fst).Nodup) (h : Moved l files w w') :
    ∃ result w'', Mailroom.consume (PathText.join spool processedName)
        (todo.map fun x => PathText.join spool x.1) w' = (result, w'') ∧
      Moved l (files ++ todo.takeWhile fun x => !w.tree.hasFolder (takenOver l x.1)) w w'' ∧
      (result = .ok () ↔ ∀ x ∈ todo, w.tree.hasFolder (takenOver l x.1) = false) := by
  -- what has been moved grows by each file that is no longer to be moved
  induction todo generalizing files w' with
  | nil =>
    refine ⟨.ok (), w', rfl, ?_, ⟨fun _ => List.forall_mem_nil _, fun _ => rfl⟩⟩
    rw [List.takeWhile_nil, List.append_nil]
    exact h
  | cons x todo ih =>
    obtain ⟨name, f⟩ := x
    obtain ⟨hfile, hrest⟩ := List.forall_mem_cons.1 hfiles
    have hnew : ∀ x ∈ files, x.1 ≠ name := by
      intro x hx heq
      rw [List.map_append, List.nodup_append] at hdistinct
      exact hdistinct.2.2 x.1 (List.mem_map_of_mem hx) name List.mem_cons_self heq
    have hsource := h.file?_entry hnew hfile
    have hname : IsFileName name := (h.sound.of_node? (Tree.file?_eq_some_iff.1 hsource)).1
    have hl' := h.locate_eq hl hfolder
    have hfolder' := (h.hasFolder l).trans hfolder
    have hthere' := (h.hasFolder (l ++ [processedName])).trans hthere
    have hsame := h.hasFolder (takenOver l name)
    rw [List.map_cons, List.forall_mem_cons]
    cases hblocked : w.tree.hasFolder (takenOver l name) with
    | true =>
      obtain ⟨e, hrename⟩ := Tree.exists_rename_error hsource (entry_ne_takenOver l name name)
        (hsame.trans hblocked)
      have hnone : ((name, f) :: todo).takeWhile
          (fun x => !w.tree.hasFolder (takenOver l x.1)) = [] :=
        List.takeWhile_cons_of_neg (by rw [hblocked]; exact Bool.false_ne_true)
      rw [hnone, List.append_nil]
      exact ⟨_, _, consume_of_stuck hl' hfolder' hthere' hname hrename, h, nofun,
        fun hfree => absurd hfree.1 nofun⟩
    | false =>
      obtain ⟨tree, hrename⟩ : ∃ tree,
          w'.tree.rename (l ++ [name]) (takenOver l name) = .ok tree :=
        Tree.exists_rename hsource hthere' (hsame.trans hblocked)
      have hmore : ((name, f) :: todo).takeWhile
          (fun x => !w.tree.hasFolder (takenOver l x.1)) =
            (name, f) :: todo.takeWhile fun x => !w.tree.hasFolder (takenOver l x.1) :=
        List.takeWhile_cons_of_pos (by rw [hblocked]; rfl)
      rw [List.append_cons] at hdistinct
      have hrun := ih hrest hdistinct (h.rename hnew hfile hrename)
      rw [List.append_assoc, List.singleton_append] at hrun
      rw [consume_of_renamed hl' hfolder' hthere' hname hrename, hmore, and_iff_right rfl]
      exact hrun

end Moved

/-! ### Making room -/

theorem makeFolders_join {spool name : String} {w : Surroundings} {l : Location}
    (hl : w.locate spool = .ok l) (hname : IsFileName name) :
    w.makeFolders (PathText.join spool name) =
      (w.tree.makeFolders (l ++ [name])).map fun tree => { w with tree } := by
  obtain ⟨hspool, hfollow, -⟩ := Tree.locate_eq_ok.1 hl
  have hplace : (PathText.parts (PathText.join spool name)).foldl Tree.stepFrom
      (if PathText.isAbsolute (PathText.join spool name) then [] else w.folder) = l ++ [name] := by
    rw [PathText.parts_join hspool hname, PathText.isAbsolute_join hspool hname, List.foldl_append,
      Tree.foldl_stepFrom hfollow]
    exact Tree.stepFrom_name hname
  rw [← hplace]
  show (w.tree.makeFolders (List.foldl Tree.stepFrom _ _) >>= fun tree =>
    pure { w with tree }) = _
  cases w.tree.makeFolders (List.foldl Tree.stepFrom _ _) with
  | error e => rfl
  | ok tree => rfl

/-- The folder of what has been taken over may have been made, and nothing else has changed. -/
structure MadeRoom (l : Location) (w w' : Surroundings) : Prop where
  sound : w'.tree.Sound
  elsewhere : w' = { w with tree := w'.tree }
  folder : w'.tree.node? (l ++ [processedName]) = w.tree.node? (l ++ [processedName]) ∨
    w.tree.node? (l ++ [processedName]) = none
  others : ∀ k, k ≠ l ++ [processedName] → w'.tree.node? k = w.tree.node? k

section

variable {spool : String} {w : Surroundings} {l : Location} (hw : w.tree.Sound)
  (hl : w.locate spool = .ok l) (hfolder : w.tree.hasFolder l = true)

include hw hl hfolder

/-- The folder is made unless it is there. A file in its place is in the way. -/
theorem makeFolders_processed :
    w.tree.hasFile (l ++ [processedName]) = true ∧
        (∃ e, w.makeFolders (PathText.join spool processedName) = .error e) ∨
      w.tree.hasFile (l ++ [processedName]) = false ∧
        ∃ w', w.makeFolders (PathText.join spool processedName) = .ok w' ∧ MadeRoom l w w' ∧
          w'.tree.hasFolder (l ++ [processedName]) = true := by
  rw [makeFolders_join hl isFileName_processedName, Tree.makeFolders_append hw hfolder]
  cases hfile : w.tree.hasFile (l ++ [processedName]) with
  | true => exact .inl ⟨rfl, _, rfl⟩
  | false =>
    refine .inr ⟨rfl, _, rfl, ?_⟩
    cases hthere : w.tree.hasFolder (l ++ [processedName]) with
    | true => exact ⟨⟨hw, rfl, .inl rfl, fun _ _ => rfl⟩, hthere⟩
    | false =>
      have hfree := Tree.node?_eq_none hfile hthere
      refine ⟨⟨hw.put_folder hfolder isFileName_processedName hfree, rfl, .inr hfree, ?_⟩, ?_⟩
      · exact fun k hk => Tree.node?_put_of_ne hk
      · exact Tree.hasFolder_iff.2 (Tree.node?_put_self (List.concat_ne_nil _ _))

end

namespace MadeRoom

variable {l k : Location} {w w' : Surroundings}

theorem refl (hw : w.tree.Sound) (l : Location) : MadeRoom l w w :=
  ⟨hw, rfl, .inl rfl, fun _ _ => rfl⟩

theorem file?_eq (h : MadeRoom l w w') (hk : k ≠ l ++ [processedName]) :
    w'.tree.file? k = w.tree.file? k := by
  rw [Tree.file?, Tree.file?, h.others k hk]

theorem hasFolder_eq (h : MadeRoom l w w') (hk : k ≠ l ++ [processedName]) :
    w'.tree.hasFolder k = w.tree.hasFolder k := by
  rw [Tree.hasFolder, Tree.hasFolder, h.others k hk]

theorem hasFolder_of (h : MadeRoom l w w')
    (hthere : w'.tree.hasFolder (l ++ [processedName]) = true) (hk : w.tree.hasFolder k = true) :
    w'.tree.hasFolder k = true := by
  by_cases hprocessed : k = l ++ [processedName]
  · rw [hprocessed]
    exact hthere
  · exact (h.hasFolder_eq hprocessed).trans hk

theorem locate_eq (h : MadeRoom l w w')
    (hthere : w'.tree.hasFolder (l ++ [processedName]) = true) {spool : String}
    (hl : w.locate spool = .ok l) (hfolder : w.tree.hasFolder l = true) :
    w'.locate spool = .ok l :=
  locate_of_hasFolder h.elsewhere (fun _ => h.hasFolder_of hthere) hl hfolder

end MadeRoom

/-! ### Deleting what is old -/

/-- A file among what has been taken over that is too old to be kept. -/
def IsOld (w : Surroundings) (l k : Location) : Prop :=
  ∃ name f, k = takenOver l name ∧ w.tree.file? k = some f ∧ retention < w.millis - f.modified

theorem exists_sweep {processed : String} {w : Surroundings} {l : Location} (hw : w.tree.Sound)
    (hplace : w.locate processed = .ok (l ++ [processedName])) :
    ∃ old : List Location,
      sweep processed w = { w with tree := old.foldl Tree.removeFile w.tree } ∧
        ∀ k, k ∈ old ↔ IsOld w l k := by
  have hchild : ∀ name f, (name, .file f) ∈ w.tree.children (l ++ [processedName]) ↔
      w.tree.file? (takenOver l name) = some f := by
    intro name f
    rw [Tree.mem_children_iff, Tree.file?_eq_some_iff]
    exact (Tree.node?_eq_some_iff hw.distinct (List.concat_ne_nil _ _)).symm
  rw [sweep, hplace]
  refine ⟨_, rfl, fun k => ?_⟩
  rw [List.mem_filterMap]
  constructor
  · rintro ⟨⟨name, node⟩, hthere, heq⟩
    cases node with
    | folder => exact absurd heq (by simp)
    | file f =>
      dsimp only at heq
      split at heq
      · rename_i hold
        obtain rfl := Option.some.inj heq
        exact ⟨name, f, rfl, (hchild name f).1 hthere, hold⟩
      · exact absurd heq (by simp)
  · rintro ⟨name, f, rfl, hf, hold⟩
    exact ⟨(name, .file f), (hchild name f).2 hf, if_pos hold⟩

/-- What is too old has been deleted from what has been taken over, and nothing else has changed. -/
structure Swept (l : Location) (w w' : Surroundings) : Prop where
  sound : w'.tree.Sound
  elsewhere : w' = { w with tree := w'.tree }
  hasFolder : ∀ k, w'.tree.hasFolder k = w.tree.hasFolder k
  kept : ∀ name f, w'.tree.file? (takenOver l name) = some f ↔
    w.tree.file? (takenOver l name) = some f ∧ w.millis - f.modified ≤ retention
  others : ∀ k, (∀ name, k ≠ takenOver l name) → w'.tree.node? k = w.tree.node? k

theorem swept_sweep {processed : String} {w : Surroundings} {l : Location} (hw : w.tree.Sound)
    (hplace : w.locate processed = .ok (l ++ [processedName])) :
    Swept l w (sweep processed w) := by
  obtain ⟨old, hsweep, hold⟩ := exists_sweep hw hplace
  have hfiles : ∀ k ∈ old, ∃ f, w.tree.file? k = some f := by
    intro k hk
    obtain ⟨-, f, -, hf, -⟩ := (hold k).1 hk
    exact ⟨f, hf⟩
  have hnode : ∀ k, (old.foldl Tree.removeFile w.tree).node? k =
      if k ∈ old then none else w.tree.node? k := fun _ =>
    Tree.node?_foldl_removeFile_of_files hw hfiles
  rw [hsweep]
  refine ⟨hw.foldl_removeFile hfiles, rfl, fun _ => Tree.hasFolder_foldl_removeFile hw hfiles, ?_,
    ?_⟩
  · intro name f
    rw [Tree.file?_eq_some_iff, hnode]
    by_cases hmem : takenOver l name ∈ old
    · obtain ⟨-, g, -, hg, htooOld⟩ := (hold _).1 hmem
      rw [if_pos hmem, hg, Option.some.injEq]
      refine ⟨nofun, ?_⟩
      rintro ⟨rfl, hrecent⟩
      omega
    · rw [if_neg hmem, ← Tree.file?_eq_some_iff]
      refine ⟨fun hf => ⟨hf, ?_⟩, And.left⟩
      by_contra htooOld
      exact hmem ((hold _).2 ⟨name, f, rfl, hf, by omega⟩)
  · intro k hk
    rw [hnode, if_neg]
    intro hmem
    obtain ⟨name, -, rfl, -⟩ := (hold k).1 hmem
    exact hk name rfl

/-! ### A commit that succeeds -/

/-- What a commit leaves behind when it succeeds: the files have left the spool, and among what has
been taken over there are they and the files from before, if they are not too old. -/
structure Committed (l : Location) (files : List (String × File)) (w w' : Surroundings) :
    Prop where
  sound : w'.tree.Sound
  elsewhere : w' = { w with tree := w'.tree }
  gone : ∀ x ∈ files, w'.tree.node? (l ++ [x.1]) = none
  /-- a file that was moved has taken the place of one with its name -/
  kept : ∀ name f, w'.tree.file? (takenOver l name) = some f ↔
    ((name, f) ∈ files ∨ (∀ g, (name, g) ∉ files) ∧ w.tree.file? (takenOver l name) = some f) ∧
      w.millis - f.modified ≤ retention
  folders : ∀ k, k ≠ l ++ [processedName] → w'.tree.hasFolder k = w.tree.hasFolder k
  made : files ≠ [] → w.tree.hasFile (l ++ [processedName]) = false ∧
    w'.tree.hasFolder (l ++ [processedName]) = true
  notMade : files = [] → w'.tree.node? (l ++ [processedName]) = w.tree.node? (l ++ [processedName])
  others : ∀ k, k ≠ l ++ [processedName] → (∀ x ∈ files, k ≠ l ++ [x.1]) →
    (∀ name, k ≠ takenOver l name) → w'.tree.node? k = w.tree.node? k

/-- What stands among what has been taken over once the files are moved. -/
theorem Moved.file?_takenOver {l : Location} {files : List (String × File)} {w w' : Surroundings}
    (h : Moved l files w w') (hdistinct : (files.map Prod.fst).Nodup) {name : String} {f : File} :
    w'.tree.file? (takenOver l name) = some f ↔ (name, f) ∈ files ∨
      (∀ g, (name, g) ∉ files) ∧ w.tree.file? (takenOver l name) = some f := by
  by_cases hname : ∃ g, (name, g) ∈ files
  · obtain ⟨g, hg⟩ := hname
    have harrived := Tree.file?_eq_some_iff.2 (h.arrived _ hg)
    rw [harrived]
    constructor
    · intro hf
      obtain rfl := Option.some.inj hf
      exact .inl hg
    · rintro (hf | ⟨hnone, -⟩)
      · exact congrArg (some ∘ Prod.snd) (List.inj_on_of_nodup_map hdistinct hg hf rfl)
      · exact absurd hg (hnone g)
  · rw [not_exists] at hname
    have hother : w'.tree.node? (takenOver l name) = w.tree.node? (takenOver l name) :=
      h.others _ fun x hx => ⟨(entry_ne_takenOver l x.1 name).symm, fun heq =>
        hname x.2 (entry_injective heq ▸ hx)⟩
    rw [Tree.file?_eq_some_iff, hother, ← Tree.file?_eq_some_iff]
    exact ⟨fun hf => .inr ⟨hname, hf⟩, fun hf => (hf.resolve_left (hname f)).2⟩

/-- Room has been made, the files have been moved, and what is too old has been deleted. -/
theorem Swept.committed {l : Location} {files : List (String × File)}
    {w w₁ w₂ w₃ : Surroundings} (hroom : MadeRoom l w w₁)
    (hmade : files ≠ [] → w.tree.hasFile (l ++ [processedName]) = false ∧
      w₁.tree.hasFolder (l ++ [processedName]) = true)
    (hnotMade : files = [] → w₁ = w) (hmoved : Moved l files w₁ w₂)
    (hdistinct : (files.map Prod.fst).Nodup) (h : Swept l w₂ w₃) : Committed l files w w₃ := by
  have hmillis : w₂.millis = w.millis := by
    rw [hmoved.elsewhere, hroom.elsewhere]
    rfl
  have hfolders : ∀ k, w₃.tree.hasFolder k = w₁.tree.hasFolder k := fun k =>
    (h.hasFolder k).trans (hmoved.hasFolder k)
  refine ⟨h.sound, ?_, ?_, ?_, ?_, ?_, ?_, ?_⟩
  · rw [h.elsewhere, hmoved.elsewhere, hroom.elsewhere]
  · intro x hx
    rw [h.others _ (entry_ne_takenOver l x.1), hmoved.gone x hx]
  · intro name f
    rw [h.kept, hmoved.file?_takenOver hdistinct, hroom.file?_eq (takenOver_ne_processed l name),
      hmillis]
  · exact fun k hk => (hfolders k).trans (hroom.hasFolder_eq hk)
  · exact fun hne => ⟨(hmade hne).1, (hfolders _).trans (hmade hne).2⟩
  · intro hnil
    subst hnil
    rw [h.others _ fun name => (takenOver_ne_processed l name).symm,
      hmoved.others _ (List.forall_mem_nil _), hnotMade rfl]
  · intro k hk hsource htarget
    rw [h.others k htarget, hmoved.others k fun x hx => ⟨hsource x hx, htarget x.1⟩,
      hroom.others k hk]

namespace Committed

variable {l : Location} {files : List (String × File)} {w w' : Surroundings}

theorem hasFolder_of (h : Committed l files w w') {k : Location} (hk : w.tree.hasFolder k = true) :
    w'.tree.hasFolder k = true := by
  by_cases hprocessed : k = l ++ [processedName]
  · subst hprocessed
    by_cases hnil : files = []
    · rw [Tree.hasFolder_iff, h.notMade hnil]
      exact Tree.hasFolder_iff.1 hk
    · exact (h.made hnil).2
  · exact (h.folders k hprocessed).trans hk

theorem locate_eq (h : Committed l files w w') {spool : String} (hl : w.locate spool = .ok l)
    (hfolder : w.tree.hasFolder l = true) : w'.locate spool = .ok l :=
  locate_of_hasFolder h.elsewhere (fun _ => h.hasFolder_of) hl hfolder

/-- What was not moved is where it was. -/
theorem node?_entry (h : Committed l files w w') {name : String} (hprocessed : name ≠ processedName)
    (hnew : ∀ x ∈ files, x.1 ≠ name) :
    w'.tree.node? (l ++ [name]) = w.tree.node? (l ++ [name]) :=
  h.others _ (fun heq => hprocessed (entry_injective heq))
    (fun x hx heq => hnew x hx (entry_injective heq).symm)
    fun name' => entry_ne_takenOver l name name'

/-- A file that is new somewhere has been moved there. -/
theorem file?_new (h : Committed l files w w') {k : Location} {f : File}
    (hk : w'.tree.file? k = some f) :
    w.tree.file? k = some f ∨ ∃ name, (name, f) ∈ files ∧ k = takenOver l name := by
  by_cases hprocessed : k = l ++ [processedName]
  · subst hprocessed
    by_cases hnil : files = []
    · rw [Tree.file?, h.notMade hnil] at hk
      exact .inl hk
    · rw [Tree.file?_eq_some_iff, Tree.hasFolder_iff.1 (h.made hnil).2] at hk
      exact absurd hk nofun
  by_cases hsource : ∃ x ∈ files, k = l ++ [x.1]
  · obtain ⟨x, hx, rfl⟩ := hsource
    rw [Tree.file?_eq_some_iff, h.gone x hx] at hk
    exact absurd hk nofun
  by_cases htarget : ∃ name, k = takenOver l name
  · obtain ⟨name, rfl⟩ := htarget
    obtain ⟨hf | ⟨-, hf⟩, -⟩ := (h.kept name f).1 hk
    · exact .inr ⟨name, hf, rfl⟩
    · exact .inl hf
  · rw [Tree.file?, h.others k hprocessed (fun x hx heq => hsource ⟨x, hx, heq⟩) fun name heq =>
      htarget ⟨name, heq⟩] at hk
    exact .inl hk

end Committed

/-! ### A commit that fails -/

/-- What a commit leaves behind when it fails: each file is where it was or has been moved, and
nothing has been deleted. -/
structure LeftHalfway (l : Location) (files : List (String × File)) (w w' : Surroundings) :
    Prop where
  elsewhere : w' = { w with tree := w'.tree }
  each : ∀ x ∈ files,
    w'.tree.node? (l ++ [x.1]) = some (.file x.2) ∧
        w'.tree.node? (takenOver l x.1) = w.tree.node? (takenOver l x.1) ∨
      w'.tree.node? (l ++ [x.1]) = none ∧ w'.tree.node? (takenOver l x.1) = some (.file x.2)
  /-- the folder of what has been taken over may have been made -/
  folder : w'.tree.node? (l ++ [processedName]) = w.tree.node? (l ++ [processedName]) ∨
    w.tree.node? (l ++ [processedName]) = none ∧ w'.tree.hasFolder (l ++ [processedName]) = true
  others : ∀ k, k ≠ l ++ [processedName] →
    (∀ x ∈ files, k ≠ l ++ [x.1] ∧ k ≠ takenOver l x.1) → w'.tree.node? k = w.tree.node? k

theorem LeftHalfway.refl {l : Location} {files : List (String × File)} {w : Surroundings}
    (hfiles : ∀ x ∈ files, w.tree.file? (l ++ [x.1]) = some x.2) : LeftHalfway l files w w where
  elsewhere := rfl
  each x hx := .inl ⟨Tree.file?_eq_some_iff.1 (hfiles x hx), rfl⟩
  folder := .inl rfl
  others _ _ _ := rfl

/-- A file that is new somewhere has been moved there. -/
theorem LeftHalfway.file?_new {l k : Location} {files : List (String × File)}
    {w w' : Surroundings} {f : File} (h : LeftHalfway l files w w')
    (hfiles : ∀ x ∈ files, w.tree.file? (l ++ [x.1]) = some x.2)
    (hk : w'.tree.file? k = some f) :
    w.tree.file? k = some f ∨ ∃ name, (name, f) ∈ files ∧ k = takenOver l name := by
  by_cases hprocessed : k = l ++ [processedName]
  · subst hprocessed
    rcases h.folder with hsame | ⟨-, hmade⟩
    · rw [Tree.file?, hsame] at hk
      exact .inl hk
    · rw [Tree.hasFolder_of_file? hk] at hmade
      exact absurd hmade nofun
  by_cases hsource : ∃ x ∈ files, k = l ++ [x.1]
  · obtain ⟨x, hx, rfl⟩ := hsource
    rw [Tree.file?_eq_some_iff] at hk
    rcases h.each x hx with ⟨hthere, -⟩ | ⟨hgone, -⟩
    · obtain rfl := Node.file.inj (Option.some.inj (hthere.symm.trans hk))
      exact .inl (hfiles x hx)
    · rw [hgone] at hk
      exact absurd hk nofun
  by_cases htarget : ∃ x ∈ files, k = takenOver l x.1
  · obtain ⟨x, hx, rfl⟩ := htarget
    rw [Tree.file?_eq_some_iff] at hk
    rcases h.each x hx with ⟨-, hsame⟩ | ⟨-, harrived⟩
    · exact .inl (Tree.file?_eq_some_iff.2 (hsame.symm.trans hk))
    · obtain rfl := Node.file.inj (Option.some.inj (harrived.symm.trans hk))
      exact .inr ⟨x.1, hx, rfl⟩
  · rw [Tree.file?, h.others k hprocessed fun x hx => ⟨fun heq => hsource ⟨x, hx, heq⟩, fun heq =>
      htarget ⟨x, hx, heq⟩⟩] at hk
    exact .inl hk

/-- If some of the files have been moved, the others are where they were. -/
theorem Moved.leftHalfway {l : Location} {files moved : List (String × File)}
    {w w₁ w₂ : Surroundings} (hroom : MadeRoom l w w₁)
    (hthere : w₁.tree.hasFolder (l ++ [processedName]) = true)
    (hfiles : ∀ x ∈ files, w₁.tree.file? (l ++ [x.1]) = some x.2)
    (hdistinct : (files.map Prod.fst).Nodup) (hsub : moved ⊆ files) (h : Moved l moved w₁ w₂) :
    LeftHalfway l files w w₂ := by
  refine ⟨?_, fun x hx => ?_, ?_, fun k hk hne => ?_⟩
  · rw [h.elsewhere, hroom.elsewhere]
  · by_cases hmoved : x ∈ moved
    · exact .inr ⟨h.gone x hmoved, h.arrived x hmoved⟩
    · have hnew : ∀ y ∈ moved, y.1 ≠ x.1 := fun y hy heq =>
        hmoved (List.inj_on_of_nodup_map hdistinct (hsub hy) hx heq ▸ hy)
      have htarget : w₂.tree.node? (takenOver l x.1) = w₁.tree.node? (takenOver l x.1) :=
        h.others _ fun y hy => ⟨(entry_ne_takenOver l y.1 x.1).symm, fun heq =>
          hnew y hy (entry_injective heq).symm⟩
      rw [h.node?_entry hnew, htarget, hroom.others _ (takenOver_ne_processed l x.1)]
      exact .inl ⟨Tree.file?_eq_some_iff.1 (hfiles x hx), rfl⟩
  · have hfolder := (h.hasFolder (l ++ [processedName])).trans hthere
    rcases hroom.folder with hsame | hnone
    · rw [← hsame, Tree.hasFolder_iff.1 hthere, Tree.hasFolder_iff.1 hfolder]
      exact .inl rfl
    · exact .inr ⟨hnone, hfolder⟩
  · rw [h.others k fun x hx => hne x (hsub hx), hroom.others k hk]

/-! ### Every commit -/

/-- The files can be moved: nothing is in the way of them or of the folder for them. -/
def NothingInTheWay (l : Location) (files : List (String × File)) (w : Surroundings) : Prop :=
  files = [] ∨ w.tree.hasFile (l ++ [processedName]) = false ∧
    ∀ x ∈ files, w.tree.hasFolder (takenOver l x.1) = false

section

variable {spool : String} {paths : List String} {w w₁ w₂ : Surroundings} {e : FileFault}
  (hne : paths ≠ [])

include hne

theorem spoolCommit_of_noRoom
    (hmake : w.makeFolders (PathText.join spool processedName) = .error e) :
    spoolCommit spool (.files paths) w = (.error (.ofFile e), w) := by
  rw [spoolCommit, hmake]
  exact hne

variable (hmake : w.makeFolders (PathText.join spool processedName) = .ok w₁)

include hmake

theorem spoolCommit_of_stuck
    (hrun : consume (PathText.join spool processedName) paths w₁ = (.error e, w₂)) :
    spoolCommit spool (.files paths) w = (.error (.ofFile e), w₂) := by
  rw [spoolCommit, hmake]
  · dsimp only
    rw [hrun]
  · exact hne

theorem spoolCommit_of_moved
    (hrun : consume (PathText.join spool processedName) paths w₁ = (.ok (), w₂)) :
    spoolCommit spool (.files paths) w =
      (.ok (), sweep (PathText.join spool processedName) w₂) := by
  rw [spoolCommit, hmake]
  · dsimp only
    rw [hrun]
  · exact hne

end

/-- What a commit of these files gives, whether it succeeds or fails. -/
structure CommitOutcome (l : Location) (files : List (String × File)) (w : Surroundings)
    (after : Except TransportFault Unit × Surroundings) : Prop where
  ok_iff : after.1 = .ok () ↔ NothingInTheWay l files w
  committed : after.1 = .ok () → Committed l files w after.2
  leftHalfway : after.1 ≠ .ok () → LeftHalfway l files w after.2

namespace CommitOutcome

variable {l : Location} {files : List (String × File)} {w w' : Surroundings}

theorem of_ok (hway : NothingInTheWay l files w) (h : Committed l files w w') :
    CommitOutcome l files w (.ok (), w') :=
  ⟨⟨fun _ => hway, fun _ => rfl⟩, fun _ => h, fun hne => absurd rfl hne⟩

theorem of_error {e : TransportFault} (hway : ¬ NothingInTheWay l files w)
    (h : LeftHalfway l files w w') : CommitOutcome l files w (.error e, w') :=
  ⟨⟨nofun, fun hfree => absurd hfree hway⟩, nofun, fun _ => h⟩

end CommitOutcome

section

variable {spool : String} {w : Surroundings} {l : Location} (hw : w.tree.Sound)
  (hl : w.locate spool = .ok l) (hfolder : w.tree.hasFolder l = true)
  {files : List (String × File)} (hdistinct : (files.map Prod.fst).Nodup)
  (hfiles : ∀ x ∈ files, w.tree.file? (l ++ [x.1]) = some x.2)

include hl hfolder hdistinct hfiles

theorem MadeRoom.commitOutcome (hnil : files ≠ []) {w₁ : Surroundings} (h : MadeRoom l w w₁)
    (hmake : w.makeFolders (PathText.join spool processedName) = .ok w₁)
    (hfile : w.tree.hasFile (l ++ [processedName]) = false)
    (hthere : w₁.tree.hasFolder (l ++ [processedName]) = true) :
    CommitOutcome l files w
      (spoolCommit spool (.files (files.map fun x => PathText.join spool x.1)) w) := by
  have hpaths : files.map (fun x => PathText.join spool x.1) ≠ [] := mt List.map_eq_nil_iff.1 hnil
  have hentry : ∀ x ∈ files, l ++ [x.1] ≠ l ++ [processedName] := by
    intro x hx heq
    have hprocessed := Tree.hasFile_eq_true_iff.2 ⟨x.2, heq ▸ hfiles x hx⟩
    exact absurd (hprocessed.symm.trans hfile) (by decide)
  have hfiles₁ : ∀ x ∈ files, w₁.tree.file? (l ++ [x.1]) = some x.2 := fun x hx =>
    (h.file?_eq (hentry x hx)).trans (hfiles x hx)
  have hl₁ := h.locate_eq hthere hl hfolder
  have hfolder₁ := h.hasFolder_of hthere hfolder
  obtain ⟨result, w₂, hrun, hmoved, hresult⟩ :=
    Moved.consume hl₁ hfolder₁ hthere hfiles₁ (List.nil_append files ▸ hdistinct)
      (Moved.refl h.sound l)
  rw [List.nil_append] at hmoved
  have hway : result = .ok () ↔ NothingInTheWay l files w := by
    rw [hresult, NothingInTheWay, or_iff_right hnil, and_iff_right hfile]
    exact forall₂_congr fun x _ => by rw [h.hasFolder_eq (takenOver_ne_processed l x.1)]
  cases result with
  | error e =>
    rw [spoolCommit_of_stuck hpaths hmake hrun]
    exact .of_error (fun hfree => absurd (hway.2 hfree) nofun)
      (hmoved.leftHalfway h hthere hfiles₁ hdistinct (List.takeWhile_subset _))
  | ok _ =>
    have hall : files.takeWhile (fun x => !w₁.tree.hasFolder (takenOver l x.1)) = files :=
      List.takeWhile_eq_self_iff.2 fun x hx => by rw [hresult.1 rfl x hx]; rfl
    rw [hall] at hmoved
    have hplace := Tree.locate_join (hmoved.locate_eq hl₁ hfolder₁)
      ((hmoved.hasFolder l).trans hfolder₁) isFileName_processedName
    rw [spoolCommit_of_moved hpaths hmake hrun]
    exact .of_ok (hway.1 rfl) (Swept.committed h (fun _ => ⟨hfile, hthere⟩)
      (fun hempty => absurd hempty hnil) hmoved hdistinct (swept_sweep hmoved.sound hplace))

include hw

/-- Every commit of files that are there. -/
theorem commitOutcome_spoolCommit : CommitOutcome l files w
    (spoolCommit spool (.files (files.map fun x => PathText.join spool x.1)) w) := by
  by_cases hnil : files = []
  · subst hnil
    have hplace := Tree.locate_join hl hfolder isFileName_processedName
    exact .of_ok (.inl rfl) (Swept.committed (.refl hw l) (fun hne => absurd rfl hne)
      (fun _ => rfl) (.refl hw l) List.nodup_nil (swept_sweep hw hplace))
  rcases makeFolders_processed hw hl hfolder with
    ⟨hfile, e, hmake⟩ | ⟨hfile, w₁, hmake, hroom, hthere⟩
  · rw [spoolCommit_of_noRoom (mt List.map_eq_nil_iff.1 hnil) hmake]
    refine .of_error ?_ (.refl hfiles)
    rintro (hempty | ⟨hfree, -⟩)
    · exact hnil hempty
    · exact absurd (hfile.symm.trans hfree) (by decide)
  · exact hroom.commitOutcome hl hfolder hdistinct hfiles hnil hmake hfile hthere

end

end Mailroom
