/-
What the operations on a file tree do to its entries.

In a sound tree every entry stands once, in a folder, under a proper name. What an operation
does is said by what stands at every location afterwards.

* `Tree.Sound` — such a tree; nothing stands below what is no folder (`node?_below`);
* `mem_children_iff`, `pairwise_children` — what a folder holds, by name;
* `node?_put_self`, `node?_put_of_ne`, `node?_erase`, `node?_rename` — making, dropping and
  moving an entry;
* `Sound.put_file`, `write_of_file?` — writing a file again;
* `makeFolders_of_hasFolder`, `makeFolders_append` — making a folder where one is, and in one;
* `locate_join` — where a path into a folder leads;
* `node?_locate_write` — where a path leads that a file was written to.
-/
import Mailroom.Files.Tree
import Mailroom.Proofs.Files.Paths
import Mailroom.Proofs.Outcome
import Mailroom.Proofs.Store.Rows
import Mathlib.Data.List.Induction
import Mathlib.Data.List.Infix
import Mathlib.Data.List.Nodup

namespace Mailroom

namespace Tree

variable {t t' : Tree} {l k folder source target : Location} {name : String} {n : Node} {f : File}

/-- Where the entries of a tree stand. -/
def locations (t : Tree) : List Location := t.entries.map Prod.fst

/-- Every entry stands once, and in a folder, where it can be called so. -/
structure Sound (t : Tree) : Prop where
  distinct : t.locations.Nodup
  placed : ∀ k ∈ t.locations,
    ∃ folder name, k = folder ++ [name] ∧ IsFileName name ∧ t.hasFolder folder = true

theorem sound_iff : t.Sound ↔ t.locations.Nodup ∧ ∀ k ∈ t.locations,
    k = k.dropLast ++ [k.getLastD ""] ∧ IsFileName (k.getLastD "") ∧
      t.hasFolder k.dropLast = true := by
  constructor
  · refine fun ht => ⟨ht.distinct, fun k hk => ?_⟩
    obtain ⟨folder, name, rfl, hname, hfolder⟩ := ht.placed k hk
    rw [List.dropLast_concat, List.getLastD_concat]
    exact ⟨rfl, hname, hfolder⟩
  · exact fun h => ⟨h.1, fun k hk => ⟨_, _, h.2 k hk⟩⟩

instance (t : Tree) : Decidable t.Sound := decidable_of_iff _ sound_iff.symm

theorem hasFolder_iff : t.hasFolder l = true ↔ t.node? l = some .folder := by
  unfold hasFolder
  split
  · rename_i h
    rw [h]
    exact ⟨fun _ => rfl, fun _ => rfl⟩
  · rename_i h
    exact ⟨nofun, fun hl => absurd hl h⟩

theorem file?_eq_some_iff : t.file? l = some f ↔ t.node? l = some (.file f) := by
  unfold file?
  split
  · rename_i g h
    rw [h, Option.some.injEq, Option.some.injEq, Node.file.injEq]
  · rename_i h
    exact ⟨nofun, fun hl => absurd hl (h f)⟩

theorem hasFolder_of_file? (h : t.file? l = some f) : t.hasFolder l = false := by
  rw [← Bool.not_eq_true, hasFolder_iff, file?_eq_some_iff.1 h]
  exact nofun

theorem hasFile_eq_true_iff : t.hasFile l = true ↔ ∃ f, t.file? l = some f :=
  Option.isSome_iff_exists

theorem node?_eq_none (hfile : t.hasFile l = false) (hfolder : t.hasFolder l = false) :
    t.node? l = none := by
  cases hnode : t.node? l with
  | none => rfl
  | some n =>
    cases n with
    | folder =>
      rw [hasFolder_iff.2 hnode] at hfolder
      exact absurd hfolder nofun
    | file f =>
      rw [hasFile_eq_true_iff.2 ⟨f, file?_eq_some_iff.2 hnode⟩] at hfile
      exact absurd hfile nofun

theorem node?_of_ne_nil (hl : l ≠ []) :
    t.node? l = (t.entries.find? (·.1 == l)).map (·.2) := by
  rw [node?, if_neg (by simpa using hl)]

theorem mem_locations (h : (l, n) ∈ t.entries) : l ∈ t.locations := List.mem_map_of_mem h

theorem node?_eq_some_iff (hdistinct : t.locations.Nodup) (hl : l ≠ []) :
    t.node? l = some n ↔ (l, n) ∈ t.entries := by
  rw [node?_of_ne_nil hl, Option.map_eq_some_iff]
  constructor
  · rintro ⟨⟨k, m⟩, hfind, rfl⟩
    obtain rfl : k = l := by simpa using List.find?_some hfind
    exact List.mem_of_find?_eq_some hfind
  · intro hmem
    obtain ⟨e, he⟩ : ∃ e, t.entries.find? (·.1 == l) = some e := by
      refine Option.isSome_iff_exists.1 (List.find?_isSome.2 ⟨(l, n), hmem, ?_⟩)
      exact beq_self_eq_true l
    have hel : e.1 = l := by simpa using List.find?_some he
    -- no two entries stand at one location
    obtain rfl := List.inj_on_of_nodup_map hdistinct (List.mem_of_find?_eq_some he) hmem hel
    exact ⟨_, he, rfl⟩

namespace Sound

theorem ne_nil (ht : t.Sound) (hk : k ∈ t.locations) : k ≠ [] := by
  obtain ⟨folder, name, rfl, -, -⟩ := ht.placed k hk
  exact List.concat_ne_nil _ _

theorem mem_locations_iff (ht : t.Sound) (hl : l ≠ []) : l ∈ t.locations ↔ t.node? l ≠ none := by
  rw [Option.ne_none_iff_exists']
  constructor
  · intro h
    obtain ⟨⟨k, n⟩, hmem, rfl⟩ := List.mem_map.1 h
    exact ⟨n, (node?_eq_some_iff ht.distinct hl).2 hmem⟩
  · rintro ⟨n, hn⟩
    exact mem_locations ((node?_eq_some_iff ht.distinct hl).1 hn)

theorem of_node? (ht : t.Sound) (h : t.node? (folder ++ [name]) = some n) :
    IsFileName name ∧ t.hasFolder folder = true := by
  have hmem := mem_locations ((node?_eq_some_iff ht.distinct (List.concat_ne_nil _ _)).1 h)
  obtain ⟨folder', name', heq, hname, hfolder⟩ := ht.placed _ hmem
  obtain ⟨rfl, hlast⟩ := List.append_inj' heq rfl
  obtain rfl := List.singleton_inj.1 hlast
  exact ⟨hname, hfolder⟩

/-- Nothing stands below what is no folder. -/
theorem node?_below (ht : t.Sound) (hl : t.hasFolder l = false) {rest : List String}
    (hrest : rest ≠ []) : t.node? (l ++ rest) = none := by
  induction rest using List.reverseRecOn with
  | nil => exact absurd rfl hrest
  | append_singleton rest name ih =>
    rw [← List.append_assoc]
    by_contra hnode
    obtain ⟨n, hn⟩ := Option.ne_none_iff_exists'.1 hnode
    have hfolder := (ht.of_node? hn).2
    by_cases hnil : rest = []
    · rw [hnil, List.append_nil, hl] at hfolder
      exact Bool.false_ne_true hfolder
    · rw [hasFolder_iff, ih hnil] at hfolder
      exact absurd hfolder (by simp)

theorem prefix_iff_eq (ht : t.Sound) (hl : t.hasFolder l = false) (hk : k ∈ t.locations) :
    l <+: k ↔ k = l := by
  constructor
  · rintro ⟨rest, rfl⟩
    by_contra hne
    refine (ht.mem_locations_iff (ht.ne_nil hk)).1 hk (ht.node?_below hl fun hnil => hne ?_)
    rw [hnil, List.append_nil]
  · rintro rfl
    exact List.prefix_rfl

theorem hasFolder_of_prefix (ht : t.Sound) (hl : t.hasFolder l = true) (hk : k <+: l) :
    t.hasFolder k = true := by
  obtain ⟨rest, rfl⟩ := hk
  by_contra hnot
  have hnot := Bool.eq_false_of_not_eq_true hnot
  by_cases hnil : rest = []
  · rw [hnil, List.append_nil, hnot] at hl
    exact Bool.false_ne_true hl
  · rw [hasFolder_iff, ht.node?_below hnot hnil] at hl
    exact absurd hl (by simp)

end Sound

/-! ### What a folder holds -/

theorem nameIn?_eq_some_iff : nameIn? folder l = some name ↔ l = folder ++ [name] := by
  unfold nameIn?
  constructor
  · intro h
    split at h
    · rename_i last hlast
      split at h
      · rename_i hfolder
        obtain rfl := Option.some.inj h
        obtain ⟨front, rfl⟩ := List.getLast?_eq_some_iff.1 hlast
        rw [← hfolder, List.dropLast_concat]
      · exact absurd h (by simp)
    · exact absurd h (by simp)
  · rintro rfl
    rw [List.getLast?_concat]
    exact if_pos List.dropLast_concat

theorem mem_children_iff : (name, n) ∈ t.children folder ↔ (folder ++ [name], n) ∈ t.entries := by
  rw [children, List.mem_mergeSort, List.mem_filterMap]
  constructor
  · rintro ⟨⟨k, m⟩, hmem, heq⟩
    obtain ⟨name', hname, heq⟩ := Option.map_eq_some_iff.1 heq
    obtain ⟨rfl, rfl⟩ := Prod.mk.inj heq
    obtain rfl := nameIn?_eq_some_iff.1 hname
    exact hmem
  · intro hmem
    refine ⟨_, hmem, ?_⟩
    show (nameIn? folder (folder ++ [name])).map _ = _
    rw [nameIn?_eq_some_iff.2 rfl]
    rfl

theorem pairwise_children (ht : t.Sound) (folder : Location) :
    (t.children folder).Pairwise fun a b => a.1 < b.1 := by
  have hsorted : (t.children folder).Pairwise fun a b => a.1 ≤ b.1 :=
    pairwise_mergeSort_text (fun e : String × Node => e.1) _
  have hdistinct : (t.children folder).Pairwise fun a b => a.1 ≠ b.1 := by
    have hentries : t.entries.Pairwise fun a b => a.1 ≠ b.1 := List.pairwise_map.1 ht.distinct
    -- sorting keeps the names distinct
    rw [children, List.Perm.pairwise_iff (fun h => Ne.symm h) (List.mergeSort_perm _ _)]
    refine hentries.filterMap _ fun a b hne x hx y hy heq => hne ?_
    obtain ⟨name, hname, rfl⟩ := Option.map_eq_some_iff.1 hx
    obtain ⟨name', hname', rfl⟩ := Option.map_eq_some_iff.1 hy
    obtain rfl : name = name' := heq
    rw [nameIn?_eq_some_iff.1 hname, nameIn?_eq_some_iff.1 hname']
  exact hsorted.imp₂ (fun _ _ hle hne => lt_of_le_of_ne hle hne) hdistinct

/-! ### Making and dropping an entry -/

/-- An entry that is put where one stood takes its place in the list. -/
theorem fst_replace (e : Location × Node) : (if e.1 == l then (l, n) else e).1 = e.1 := by
  split
  · rename_i h
    exact (beq_iff_eq.1 h).symm
  · rfl

theorem node?_put_self (hl : l ≠ []) : (t.put l n).node? l = some n := by
  rw [node?_of_ne_nil hl, put]
  by_cases hany : t.entries.any (·.1 == l)
  · rw [if_pos hany, List.find?_map]
    simp only [Function.comp_def, fst_replace]
    obtain ⟨e, he, hel⟩ := List.any_eq_true.1 hany
    have hsome : (t.entries.find? (·.1 == l)).isSome := List.find?_isSome.2 ⟨e, he, hel⟩
    obtain ⟨e', he'⟩ := Option.isSome_iff_exists.1 hsome
    have hel' := List.find?_some he'
    rw [he', Option.map_some, Option.map_some, if_pos hel']
  · have hnone : t.entries.find? (·.1 == l) = none := by
      rw [List.find?_eq_none]
      intro e he hel
      exact hany (List.any_eq_true.2 ⟨e, he, hel⟩)
    rw [if_neg hany, List.find?_append, hnone, Option.none_or]
    simp

theorem node?_put_of_ne (hk : k ≠ l) : (t.put l n).node? k = t.node? k := by
  by_cases hnil : k = []
  · rw [hnil]
    rfl
  rw [node?_of_ne_nil hnil, node?_of_ne_nil hnil, put]
  split
  · rw [List.find?_map]
    simp only [Function.comp_def, fst_replace]
    cases hfind : t.entries.find? (·.1 == k) with
    | none => rfl
    | some e =>
      have hek : e.1 = k := by simpa using List.find?_some hfind
      have hel : ¬ (e.1 == l) = true := by simpa [hek] using hk
      rw [Option.map_some, if_neg hel]
  · have hnone : [(l, n)].find? (fun e => e.1 == k) = none := by simpa using Ne.symm hk
    rw [List.find?_append, hnone, Option.or_none]

theorem node?_erase (hl : l ≠ []) : (t.erase l).node? k = if l <+: k then none else t.node? k := by
  by_cases hk : k = []
  · subst hk
    rw [if_neg fun h => hl (List.prefix_nil.1 h)]
    rfl
  rw [node?_of_ne_nil hk, node?_of_ne_nil hk, erase, List.find?_filter]
  split
  · rename_i hprefix
    rw [List.find?_eq_none.2]
    · rfl
    · intro e _ he
      obtain ⟨hkept, hek⟩ := of_decide_eq_true he
      rw [beq_iff_eq.1 hek, Bool.not_eq_true', ← Bool.not_eq_true, List.isPrefixOf_iff_prefix]
        at hkept
      exact hkept hprefix
  · rename_i hprefix
    have hsame : (fun e : Location × Node =>
        decide ((!l.isPrefixOf e.1) = true ∧ (e.1 == k) = true)) = fun e => e.1 == k := by
      funext e
      by_cases hek : e.1 = k
      · have hkept : l.isPrefixOf k = false := by
          rw [← Bool.not_eq_true, List.isPrefixOf_iff_prefix]
          exact hprefix
        simp [hek, hkept]
      · simp [hek]
    rw [hsame]

/-! ### Removing files -/

theorem ne_nil_of_file? (h : t.file? l = some f) : l ≠ [] := by
  rintro rfl
  exact absurd (file?_eq_some_iff.1 h) (by simp [node?])

theorem entries_foldl_removeFile_sublist (ks : List Location) :
    (ks.foldl removeFile t).entries.Sublist t.entries := by
  induction ks generalizing t with
  | nil => exact List.Sublist.refl _
  | cons k ks ih => exact ih.trans List.filter_sublist

theorem node?_foldl_removeFile {ks : List Location} (hks : ∀ k ∈ ks, k ≠ []) :
    (ks.foldl removeFile t).node? l = if ∃ k ∈ ks, k <+: l then none else t.node? l := by
  induction ks generalizing t with
  | nil => rw [if_neg (by simp)]; rfl
  | cons k ks ih =>
    obtain ⟨hk, hks⟩ := List.forall_mem_cons.1 hks
    rw [List.foldl_cons, ih hks, removeFile, node?_erase hk]
    simp only [List.mem_cons, exists_eq_or_imp]
    by_cases habove : k <+: l
    · rw [if_pos habove, ite_self, if_pos (.inl habove)]
    · simp only [habove, false_or, if_false]

section

variable {ks : List Location} (ht : t.Sound) (hks : ∀ k ∈ ks, ∃ f, t.file? k = some f)

include ht hks

/-- Nothing stands below a file, so nothing else is removed. -/
theorem node?_foldl_removeFile_of_files :
    (ks.foldl removeFile t).node? l = if l ∈ ks then none else t.node? l := by
  have hnil : ∀ k ∈ ks, k ≠ [] := fun k hk => (hks k hk).elim fun _ hf => ne_nil_of_file? hf
  rw [node?_foldl_removeFile hnil]
  by_cases hmem : l ∈ ks
  · rw [if_pos hmem, if_pos ⟨l, hmem, List.prefix_rfl⟩]
  · rw [if_neg hmem]
    split
    · rename_i hbelow
      obtain ⟨k, hk, rest, rfl⟩ := hbelow
      obtain ⟨f, hf⟩ := hks k hk
      refine (ht.node?_below (hasFolder_of_file? hf) fun hrest => hmem ?_).symm
      rw [hrest, List.append_nil]
      exact hk
    · rfl

theorem hasFolder_foldl_removeFile : (ks.foldl removeFile t).hasFolder l = t.hasFolder l := by
  rw [Bool.eq_iff_iff, hasFolder_iff, hasFolder_iff, node?_foldl_removeFile_of_files ht hks]
  split
  · rename_i hl
    obtain ⟨f, hf⟩ := hks l hl
    rw [file?_eq_some_iff.1 hf]
    exact ⟨nofun, nofun⟩
  · rfl

theorem Sound.foldl_removeFile : (ks.foldl removeFile t).Sound := by
  have hsub : (ks.foldl removeFile t).locations.Sublist t.locations :=
    (entries_foldl_removeFile_sublist ks).map Prod.fst
  refine ⟨ht.distinct.sublist hsub, fun k hk => ?_⟩
  obtain ⟨folder, name, rfl, hname, hfolder⟩ := ht.placed k (hsub.subset hk)
  exact ⟨folder, name, rfl, hname, (hasFolder_foldl_removeFile ht hks).trans hfolder⟩

end

/-! ### Writing a file -/

/-- What is put where a file stands. -/
theorem locations_put (hl : l ∈ t.locations) : (t.put l n).locations = t.locations := by
  have hany : t.entries.any (·.1 == l) = true := by
    obtain ⟨e, he, rfl⟩ := List.mem_map.1 hl
    exact List.any_eq_true.2 ⟨e, he, beq_self_eq_true _⟩
  rw [put, if_pos hany, locations, List.map_map]
  exact List.map_congr_left fun e _ => fst_replace e

theorem hasFolder_put_file {g : File} (hf : t.file? l = some f) :
    (t.put l (.file g)).hasFolder k = t.hasFolder k := by
  by_cases hkl : k = l
  · rw [hkl, hasFolder_of_file? hf,
      hasFolder_of_file? (file?_eq_some_iff.2 (node?_put_self (ne_nil_of_file? hf)))]
  · rw [Bool.eq_iff_iff, hasFolder_iff, hasFolder_iff, node?_put_of_ne hkl]

section

variable (ht : t.Sound) (hf : t.file? l = some f)

include ht hf

/-- A file in the place of another one. -/
theorem Sound.put_file (g : File) : (t.put l (.file g)).Sound := by
  have hnode : t.node? l ≠ none := by
    rw [file?_eq_some_iff.1 hf]
    exact nofun
  have hmem := (ht.mem_locations_iff (ne_nil_of_file? hf)).2 hnode
  refine ⟨?_, ?_⟩
  · rw [locations_put hmem]
    exact ht.distinct
  · rw [locations_put hmem]
    intro k hk
    obtain ⟨folder, name, rfl, hname, hfolder⟩ := ht.placed k hk
    exact ⟨folder, name, rfl, hname, (hasFolder_put_file hf).trans hfolder⟩

/-- The folder of a file is there, so the file can be written again. -/
theorem write_of_file? (contents : Contents) (now : Int) :
    t.write l contents now = .ok (t.put l (.file ⟨contents, now⟩)) := by
  have hnode := file?_eq_some_iff.1 hf
  have hl : l = l.dropLast ++ [l.getLast (ne_nil_of_file? hf)] :=
    (List.dropLast_append_getLast _).symm
  have hfolder : t.node? l.dropLast = some .folder := by
    rw [hl] at hnode
    exact hasFolder_iff.1 (ht.of_node? hnode).2
  rw [write, if_neg (by rw [hasFolder_of_file? hf]; exact Bool.false_ne_true), checkParent, hfolder]
  rfl

end

/-! ### Making a folder -/

/-- A new folder in a folder. -/
theorem Sound.put_folder (ht : t.Sound) (hfolder : t.hasFolder folder = true)
    (hname : IsFileName name) (hfree : t.node? (folder ++ [name]) = none) :
    (t.put (folder ++ [name]) .folder).Sound := by
  have hne : folder ++ [name] ≠ [] := List.concat_ne_nil _ _
  have hnew : folder ++ [name] ∉ t.locations := fun h => (ht.mem_locations_iff hne).1 h hfree
  have hentries : (t.put (folder ++ [name]) .folder).entries =
      t.entries ++ [(folder ++ [name], .folder)] := by
    rw [put, if_neg]
    intro hany
    obtain ⟨e, he, hek⟩ := List.any_eq_true.1 hany
    exact hnew (List.mem_map.2 ⟨e, he, beq_iff_eq.1 hek⟩)
  have hlocations : (t.put (folder ++ [name]) .folder).locations =
      t.locations ++ [folder ++ [name]] := by
    rw [locations, hentries, List.map_append]
    rfl
  have hkept : ∀ k, t.hasFolder k = true →
      (t.put (folder ++ [name]) .folder).hasFolder k = true := by
    intro k hk
    have hkn := hasFolder_iff.1 hk
    rw [hasFolder_iff, node?_put_of_ne, hkn]
    rintro rfl
    rw [hfree] at hkn
    exact absurd hkn (by simp)
  refine ⟨?_, ?_⟩
  · rw [hlocations, List.nodup_append]
    refine ⟨ht.distinct, List.nodup_singleton _, ?_⟩
    rintro a ha b hb rfl
    exact hnew (List.mem_singleton.1 hb ▸ ha)
  · rw [hlocations]
    intro k hk
    rcases List.mem_append.1 hk with hk | hk
    · obtain ⟨folder', name', rfl, hname', hfolder'⟩ := ht.placed k hk
      exact ⟨folder', name', rfl, hname', hkept _ hfolder'⟩
    · exact ⟨folder, name, List.mem_singleton.1 hk, hname, hkept _ hfolder⟩

/-! ### Moving a file -/

/-- A file can be moved into a folder unless there is a folder of its name. -/
theorem exists_rename (hfile : t.file? source = some f) (hfolder : t.hasFolder folder = true)
    (hfree : t.hasFolder (folder ++ [name]) = false) :
    ∃ t', t.rename source (folder ++ [name]) = .ok t' := by
  have hcheck : t.checkParent (folder ++ [name]) = .ok () := by
    rw [checkParent, List.dropLast_concat, hasFolder_iff.1 hfolder]
  rw [rename, file?_eq_some_iff.1 hfile]
  dsimp only
  rw [hcheck]
  by_cases hsame : source = folder ++ [name]
  · exact ⟨t, if_pos hsame⟩
  · cases htarget : t.node? (folder ++ [name]) with
    | none => exact ⟨_, if_neg hsame⟩
    | some n =>
      cases n with
      | file g => exact ⟨_, if_neg hsame⟩
      | folder =>
        rw [hasFolder_iff.2 htarget] at hfree
        exact absurd hfree nofun

/-- If a file could be moved, its target was no folder and stood in one. -/
theorem rename_eq_ok (hfile : t.file? source = some f) (hne : source ≠ target)
    (h : t.rename source target = .ok t') :
    t.hasFolder target.dropLast = true ∧ t.hasFolder target = false ∧
      t'.entries = (t.erase target).entries.map fun e =>
        (if source.isPrefixOf e.1 then target ++ e.1.drop source.length else e.1, e.2) := by
  have hnode := file?_eq_some_iff.1 hfile
  have hparent : t.checkParent target = .ok () → t.hasFolder target.dropLast = true := by
    intro hcheck
    unfold checkParent at hcheck
    unfold hasFolder
    split at hcheck
    · exact absurd hcheck (by simp)
    · exact absurd hcheck (by simp)
    · rename_i hfolder
      rw [hfolder]
  unfold rename at h
  rw [hnode] at h
  dsimp only at h
  rw [bind_eq_ok] at h
  obtain ⟨_, hcheck, h⟩ := h
  rw [if_neg hne] at h
  have hplace : t.hasFolder target = false := by
    rw [← Bool.not_eq_true, hasFolder_iff]
    intro hfolder
    rw [hfolder] at h
    exact absurd h (by simp [throw, throwThe, MonadExceptOf.throw, bind, Except.bind])
  refine ⟨hparent hcheck, hplace, ?_⟩
  cases htarget : t.node? target with
  | none =>
    rw [htarget] at h
    obtain rfl := Except.ok.inj h
    rfl
  | some place =>
    cases place with
    | file g =>
      rw [htarget] at h
      obtain rfl := Except.ok.inj h
      rfl
    | folder =>
      rw [hasFolder_iff.2 htarget] at hplace
      exact absurd hplace (by simp)

/-- A file cannot be moved to where a folder is. -/
theorem exists_rename_error (hfile : t.file? source = some f) (hne : source ≠ target)
    (hfolder : t.hasFolder target = true) : ∃ e, t.rename source target = .error e := by
  cases hrename : t.rename source target with
  | error e => exact ⟨e, rfl⟩
  | ok t' =>
    have hfree := (rename_eq_ok hfile hne hrename).2.1
    exact absurd (hfolder.symm.trans hfree) (by decide)

section

variable (ht : t.Sound) (hfile : t.file? source = some f) (hne : source ≠ folder ++ [name])
  (h : t.rename source (folder ++ [name]) = .ok t')

include ht hfile hne h

/-- Nothing else stands at or below a file or its target, so the one entry is moved and what
stood at the target is gone. -/
theorem entries_rename :
    t'.entries = (t.entries.filter fun e => e.1 ≠ folder ++ [name]).map fun e =>
      (if e.1 = source then folder ++ [name] else e.1, e.2) := by
  obtain ⟨-, hplace, hentries⟩ := rename_eq_ok hfile hne h
  have hcleared : (t.erase (folder ++ [name])).entries =
      t.entries.filter fun e => e.1 ≠ folder ++ [name] := by
    refine List.filter_congr fun e he => ?_
    rw [Bool.eq_iff_iff, Bool.not_eq_true', ← Bool.not_eq_true, List.isPrefixOf_iff_prefix,
      ht.prefix_iff_eq hplace (mem_locations he), decide_eq_true_eq]
  rw [hentries, hcleared]
  refine List.map_congr_left fun e he => ?_
  have hmoved : source.isPrefixOf e.1 = true ↔ e.1 = source := by
    rw [List.isPrefixOf_iff_prefix]
    exact ht.prefix_iff_eq (hasFolder_of_file? hfile) (mem_locations (List.mem_filter.1 he).1)
  by_cases hes : e.1 = source
  · rw [if_pos (hmoved.2 hes), if_pos hes, hes, List.drop_length, List.append_nil]
  · rw [if_neg fun hp => hes (hmoved.1 hp), if_neg hes]

theorem nodup_locations_rename : t'.locations.Nodup := by
  have hlocations : t'.locations = (t.locations.filter (· ≠ folder ++ [name])).map fun k =>
      if k = source then folder ++ [name] else k := by
    rw [locations, entries_rename ht hfile hne h, List.map_map, locations, List.filter_map,
      List.map_map]
    rfl
  rw [hlocations]
  refine (ht.distinct.filter _).map_on fun k hk k' hk' heq => ?_
  have hk := of_decide_eq_true (List.mem_filter.1 hk).2
  have hk' := of_decide_eq_true (List.mem_filter.1 hk').2
  -- nothing but the file comes to stand at the target
  by_cases hks : k = source
  · by_cases hks' : k' = source
    · rw [hks, hks']
    · rw [if_pos hks, if_neg hks'] at heq
      exact absurd heq.symm hk'
  · by_cases hks' : k' = source
    · rw [if_neg hks, if_pos hks'] at heq
      exact absurd heq hk
    · rw [if_neg hks, if_neg hks'] at heq
      exact heq

theorem mem_entries_rename : (k, n) ∈ t'.entries ↔
    (k = folder ++ [name] ∧ n = .file f) ∨
      (k ≠ folder ++ [name] ∧ k ≠ source ∧ (k, n) ∈ t.entries) := by
  have hsource := ne_nil_of_file? hfile
  have hstands := (node?_eq_some_iff ht.distinct hsource).1 (file?_eq_some_iff.1 hfile)
  rw [entries_rename ht hfile hne h, List.mem_map]
  constructor
  · rintro ⟨e, he, heq⟩
    obtain ⟨hmem, hkept⟩ := List.mem_filter.1 he
    obtain ⟨rfl, rfl⟩ := Prod.mk.inj heq
    by_cases hes : e.1 = source
    · obtain rfl := List.inj_on_of_nodup_map ht.distinct hmem hstands hes
      exact .inl ⟨if_pos rfl, rfl⟩
    · rw [if_neg hes]
      exact .inr ⟨of_decide_eq_true hkept, hes, hmem⟩
  · rintro (⟨rfl, rfl⟩ | ⟨hk, hks, hmem⟩)
    · exact ⟨_, List.mem_filter.2 ⟨hstands, decide_eq_true hne⟩, by rw [if_pos rfl]⟩
    · exact ⟨_, List.mem_filter.2 ⟨hmem, decide_eq_true hk⟩, by rw [if_neg hks]⟩

theorem node?_rename : t'.node? k =
    if k = folder ++ [name] then some (.file f) else if k = source then none else t.node? k := by
  have hsource := ne_nil_of_file? hfile
  by_cases hnil : k = []
  · rw [hnil, if_neg (List.concat_ne_nil _ _).symm, if_neg hsource.symm]
    rfl
  refine Option.ext fun n => ?_
  rw [node?_eq_some_iff (nodup_locations_rename ht hfile hne h) hnil,
    mem_entries_rename ht hfile hne h]
  by_cases hk : k = folder ++ [name]
  · rw [if_pos hk, Option.some.injEq, eq_comm (a := n)]
    exact ⟨fun hn => hn.elim And.right fun hn => absurd hk hn.1, fun hn => .inl ⟨hk, hn⟩⟩
  · rw [if_neg hk]
    by_cases hks : k = source
    · rw [if_pos hks]
      exact ⟨fun hn => hn.elim (fun hn => absurd hn.1 hk) fun hn => absurd hks hn.2.1, nofun⟩
    · rw [if_neg hks, node?_eq_some_iff ht.distinct hnil]
      exact ⟨fun hn => hn.elim (fun hn => absurd hn.1 hk) fun hn => hn.2.2,
        fun hn => .inr ⟨hk, hks, hn⟩⟩

theorem hasFolder_rename : t'.hasFolder k = t.hasFolder k := by
  obtain ⟨-, hplace, -⟩ := rename_eq_ok hfile hne h
  rw [Bool.eq_iff_iff, hasFolder_iff, hasFolder_iff, node?_rename ht hfile hne h]
  by_cases hk : k = folder ++ [name]
  · rw [if_pos hk, hk, ← hasFolder_iff, hplace]
    exact ⟨nofun, nofun⟩
  · rw [if_neg hk]
    by_cases hks : k = source
    · rw [if_pos hks, hks, file?_eq_some_iff.1 hfile]
      exact ⟨nofun, nofun⟩
    · rw [if_neg hks]

theorem Sound.rename (hname : IsFileName name) : t'.Sound := by
  obtain ⟨hfolder, -, -⟩ := rename_eq_ok hfile hne h
  rw [List.dropLast_concat] at hfolder
  refine ⟨nodup_locations_rename ht hfile hne h, fun k hk => ?_⟩
  obtain ⟨⟨k, n⟩, hmem, rfl⟩ := List.mem_map.1 hk
  rcases (mem_entries_rename ht hfile hne h).1 hmem with ⟨rfl, -⟩ | ⟨-, -, hmem⟩
  · exact ⟨folder, name, rfl, hname, (hasFolder_rename ht hfile hne h).trans hfolder⟩
  · obtain ⟨folder', name', rfl, hname', hfolder'⟩ := ht.placed k (mem_locations hmem)
    exact ⟨folder', name', rfl, hname', (hasFolder_rename ht hfile hne h).trans hfolder'⟩

end

/-! ### Making folders -/

theorem ancestry_append (l : Location) (name : String) :
    ancestry (l ++ [name]) = ancestry l ++ [l ++ [name]] := by
  have htake : ∀ i ∈ List.range (l.length + 1), (l ++ [name]).take i = l.take i := by
    intro i hi
    rw [List.take_append_of_le_length (Nat.le_of_lt_succ (List.mem_range.1 hi))]
  rw [ancestry, List.length_append, List.length_singleton, List.range_succ, List.map_append,
    List.map_congr_left htake, List.map_singleton, List.take_of_length_le (by simp)]
  rfl

section

variable (ht : t.Sound) (hl : t.hasFolder l = true)

include ht hl

theorem hasFolder_of_mem_ancestry (hk : k ∈ ancestry l) : t.hasFolder k = true := by
  obtain ⟨i, -, rfl⟩ := List.mem_map.1 hk
  exact ht.hasFolder_of_prefix hl (List.take_prefix i l)

theorem find?_hasFile_ancestry : (ancestry l).find? t.hasFile = none := by
  rw [List.find?_eq_none]
  intro k hk hfile
  obtain ⟨f, hf⟩ := Option.isSome_iff_exists.1 hfile
  have hfolder := hasFolder_of_mem_ancestry ht hl hk
  rw [hasFolder_of_file? hf] at hfolder
  exact Bool.false_ne_true hfolder

theorem foldl_ancestry :
    (ancestry l).foldl (fun t l => if t.hasFolder l then t else t.put l .folder) t = t := by
  have hfolders : ∀ k ∈ ancestry l, t.hasFolder k = true := fun _ hk =>
    hasFolder_of_mem_ancestry ht hl hk
  generalize ancestry l = ks at hfolders
  induction ks with
  | nil => rfl
  | cons k ks ih =>
    rw [List.foldl_cons, if_pos (hfolders k List.mem_cons_self)]
    exact ih fun k' hk' => hfolders k' (List.mem_cons_of_mem _ hk')

/-- Nothing has to be made where a folder is. -/
theorem makeFolders_of_hasFolder : t.makeFolders l = .ok t := by
  rw [makeFolders, find?_hasFile_ancestry ht hl]
  exact congrArg Except.ok (foldl_ancestry ht hl)

/-- Making a folder in a folder makes no other one. -/
theorem makeFolders_append (name : String) :
    t.makeFolders (l ++ [name]) =
      if t.hasFile (l ++ [name]) then .error .alreadyThere
      else .ok (if t.hasFolder (l ++ [name]) then t else t.put (l ++ [name]) .folder) := by
  rw [makeFolders, ancestry_append, List.find?_append, find?_hasFile_ancestry ht hl,
    Option.none_or, List.foldl_append, foldl_ancestry ht hl]
  by_cases hfile : t.hasFile (l ++ [name])
  · rw [List.find?_cons_of_pos hfile, if_pos hfile]
    dsimp only
    rw [if_pos rfl]
  · rw [List.find?_cons_of_neg hfile, if_neg hfile]
    rfl

end

/-! ### Paths -/

/-- Where one part of a path leads from a folder. -/
def stepFrom (here : Location) (p : String) : Location :=
  if p = "." then here else if p = ".." then here.dropLast else here ++ [p]

section

variable {here : Location} {p : String} {ps : List String} {path : String}

theorem follow_cons (hhere : t.hasFolder here = true) :
    t.follow here (p :: ps) = t.follow (stepFrom here p) ps := by
  rw [follow, hasFolder_iff.1 hhere, stepFrom]
  dsimp only
  split
  · rfl
  · split
    · rfl
    · rfl

theorem hasFolder_of_follow (h : t.follow here (p :: ps) = .ok l) : t.hasFolder here = true := by
  rw [follow] at h
  rw [hasFolder_iff]
  split at h
  · exact absurd h (by simp)
  · exact absurd h (by simp)
  · assumption

theorem follow_append {qs : List String} (h : t.follow here ps = .ok l) :
    t.follow here (ps ++ qs) = t.follow l qs := by
  induction ps generalizing here with
  | nil => rw [List.nil_append, Except.ok.inj h]
  | cons p ps ih =>
    have hhere := hasFolder_of_follow h
    rw [follow_cons hhere] at h
    rw [List.cons_append, follow_cons hhere]
    exact ih h

/-- Paths lead to the same places as long as the folders are there. -/
theorem follow_of_hasFolder (hkept : ∀ k, t.hasFolder k = true → t'.hasFolder k = true)
    (h : t.follow here ps = .ok l) : t'.follow here ps = .ok l := by
  induction ps generalizing here with
  | nil => exact h
  | cons p ps ih =>
    have hhere := hasFolder_of_follow h
    rw [follow_cons hhere] at h
    rw [follow_cons (hkept _ hhere)]
    exact ih h

/-- What a path leads through is a folder. -/
theorem hasFolder_of_follow_append {q : String} {qs : List String}
    (h : t.follow here (ps ++ q :: qs) = .ok l) : t.hasFolder (ps.foldl stepFrom here) = true := by
  induction ps generalizing here with
  | nil => exact hasFolder_of_follow h
  | cons p ps ih =>
    rw [List.cons_append, follow_cons (hasFolder_of_follow h)] at h
    exact ih h

theorem foldl_stepFrom (h : t.follow here ps = .ok l) : ps.foldl stepFrom here = l := by
  induction ps generalizing here with
  | nil => exact Except.ok.inj h
  | cons p ps ih =>
    rw [follow_cons (hasFolder_of_follow h)] at h
    exact ih h

theorem stepFrom_name (hname : IsFileName name) : stepFrom here name = here ++ [name] := by
  rw [stepFrom, if_neg hname.ne_here, if_neg hname.ne_up]

theorem locate_eq_ok : t.locate here path = .ok l ↔ path ≠ "" ∧
    t.follow (if PathText.isAbsolute path then [] else here) (PathText.parts path) = .ok l ∧
      ¬ (path.toList.getLast? = some '/' ∧ t.hasFile l = true) := by
  rw [locate]
  by_cases hpath : path = ""
  · rw [hpath]
    exact ⟨nofun, fun h => absurd rfl h.1⟩
  rw [if_neg (by simpa using hpath)]
  dsimp only
  rw [bind_eq_ok]
  constructor
  · rintro ⟨k, hfollow, h⟩
    split at h
    · exact absurd h nofun
    · rename_i hend
      obtain rfl := Except.ok.inj h
      exact ⟨hpath, hfollow, by simpa using hend⟩
  · rintro ⟨-, hfollow, hend⟩
    refine ⟨l, hfollow, ?_⟩
    rw [if_neg (by simpa using hend)]
    rfl

/-- A path into a folder leads to the entry of that name, whether it is there or not. -/
theorem locate_join (h : t.locate here path = .ok l) (hl : t.hasFolder l = true)
    (hname : IsFileName name) :
    t.locate here (PathText.join path name) = .ok (l ++ [name]) := by
  obtain ⟨hpath, hfollow, -⟩ := locate_eq_ok.1 h
  refine locate_eq_ok.2 ⟨PathText.join_ne_empty hpath hname, ?_, ?_⟩
  · rw [PathText.isAbsolute_join hpath hname, PathText.parts_join hpath hname,
      follow_append hfollow, follow_cons hl, stepFrom_name hname, follow]
  · exact fun hslash => PathText.getLast?_join hpath hname hslash.1

theorem locate_of_hasFolder (hkept : ∀ k, t.hasFolder k = true → t'.hasFolder k = true)
    (h : t.locate here path = .ok l) (hl : t.hasFolder l = true) : t'.locate here path = .ok l := by
  obtain ⟨hpath, hfollow, -⟩ := locate_eq_ok.1 h
  refine locate_eq_ok.2 ⟨hpath, follow_of_hasFolder hkept hfollow, ?_⟩
  rintro ⟨-, hfile⟩
  obtain ⟨f, hf⟩ := Option.isSome_iff_exists.1 hfile
  have hfolder := hkept l hl
  rw [hasFolder_of_file? hf] at hfolder
  exact Bool.false_ne_true hfolder

theorem locateToWrite_eq_ok : t.locateToWrite here path = .ok l ↔ path ≠ "" ∧
    t.follow (if PathText.isAbsolute path then [] else here) (PathText.parts path) = .ok l ∧
      path.toList.getLast? ≠ some '/' := by
  rw [locateToWrite]
  by_cases hpath : path = ""
  · rw [hpath]
    exact ⟨nofun, fun h => absurd rfl h.1⟩
  rw [if_neg (by simpa using hpath)]
  dsimp only
  rw [bind_eq_ok]
  constructor
  · rintro ⟨k, hfollow, h⟩
    split at h
    · exact absurd h nofun
    · rename_i hend
      obtain rfl := Except.ok.inj h
      exact ⟨hpath, hfollow, hend⟩
  · rintro ⟨-, hfollow, hend⟩
    refine ⟨l, hfollow, ?_⟩
    rw [if_neg hend]
    rfl

theorem write_eq_ok {contents : Contents} {now : Int} (h : t.write l contents now = .ok t') :
    t.hasFolder l = false ∧ t' = t.put l (.file ⟨contents, now⟩) := by
  rw [write] at h
  split at h
  · exact absurd h nofun
  · rename_i hfolder
    dsimp only at h
    obtain ⟨_, -, heq⟩ := bind_eq_ok.1 h
    exact ⟨Bool.eq_false_of_not_eq_true hfolder, (Except.ok.inj heq).symm⟩

/-- A path that a file was written to leads to this file. -/
theorem node?_locate_write {contents : Contents} {now : Int}
    (hl : t.locateToWrite here path = .ok l) (hw : t.write l contents now = .ok t') :
    t'.locate here path = .ok l ∧ t'.node? l = some (.file ⟨contents, now⟩) := by
  obtain ⟨hpath, hfollow, hend⟩ := locateToWrite_eq_ok.1 hl
  obtain ⟨hfolder, rfl⟩ := write_eq_ok hw
  have hne : l ≠ [] := by
    rintro rfl
    exact absurd hfolder (by simp [hasFolder, node?])
  -- the file does not stand in the place of a folder, so every folder is still there
  have hkept : ∀ k, t.hasFolder k = true → (t.put l (.file ⟨contents, now⟩)).hasFolder k = true := by
    intro k hk
    have hkl : k ≠ l := by
      rintro rfl
      rw [hfolder] at hk
      exact Bool.false_ne_true hk
    rw [hasFolder_iff, node?_put_of_ne hkl]
    exact hasFolder_iff.1 hk
  exact ⟨locate_eq_ok.2 ⟨hpath, follow_of_hasFolder hkept hfollow, fun h => hend h.1⟩,
    node?_put_self hne⟩

end

end Tree

end Mailroom
