/-
A legacy mailbox can be taken over again.

Whatever is done to a store in the meantime, short of pruning, no id that is there gets lost. So
each message of the mailbox is there when it comes a second time, and is left as it is.

* `takeOverAll_of_held` — nothing is stored of files whose messages are all there;
* `ids_subset_perform`, `ids_subset_foldl` — what was there before an operation, and before several;
* `SameMailbox`, `sameMailbox_of_node?_eq` — the mailbox has not changed, as when nothing has in its
  folder;
* `taking_over_again_changes_nothing` — the second run, whatever came between.
-/
import Mailroom.Proofs.Legacy.FirstRecords
import Mailroom.Proofs.Mailbox.Histories
import Mathlib.Data.List.Perm.Basic

namespace Mailroom

open NamePattern

variable {σ : Type} {w w' : Surroundings} {path : String} {s : Store}

/-! ### What is there stays there -/

/-- Of files whose messages are all there nothing is stored. The records are duplicates, and the
other files are skipped. -/
theorem takeOverAll_of_held {files : List (Location × Bool)}
    (h : ∀ m ∈ messagesOf w files, m.id ∈ s.ids) :
    takeOverAll w files (s, ⟨0, 0, 0⟩) =
      (s, ⟨0, (messagesOf w files).length, files.length - (messagesOf w files).length⟩) := by
  have htakes := takesOver_all (w := w) files (s, ⟨0, 0, 0⟩)
  have hstore : (takeOverAll w files (s, ⟨0, 0, 0⟩)).1 = s := by
    rw [takeOverAll_fst, Store.takeIn_of_held h]
  generalize takeOverAll w files (s, ⟨0, 0, 0⟩) = after at htakes hstore
  obtain ⟨s', imported, duplicates, skipped⟩ := after
  obtain rfl : s' = s := hstore
  have hnone : imported = 0 := by
    obtain ⟨new, hadds, -, himported⟩ := htakes.imported
    have hids : s'.ids = s'.ids ++ new.map (·.id) := hadds.ids_eq
    rw [List.self_eq_append_right, List.map_eq_nil_iff] at hids
    rw [hids] at himported
    exact himported
  have hcounted := htakes.counted
  have hskipped := htakes.skipped
  dsimp only at hcounted hskipped
  obtain rfl := hnone
  obtain rfl : duplicates = (messagesOf w files).length := by omega
  obtain rfl : skipped = files.length - (messagesOf w files).length := by omega
  rfl

/-- Whether an operation can delete messages. -/
def Operation.IsPruning : Operation σ → Prop
  | prune _ _ _ _ => True
  | _ => False

theorem ids_subset_of_grows {s' : Store} (h : Grows s s') : s.ids ⊆ s'.ids := by
  obtain ⟨ms, hadds, -⟩ := h
  exact hadds.subset_ids

theorem ids_subset_perform {op : Operation σ} (h : ¬ op.IsPruning) (s : Store) :
    s.ids ⊆ (op.perform s).ids := by
  cases op with
  | send b d time ids w => exact ids_subset_of_grows (grows_send b d time ids s w)
  | ingest e time => exact (adds_ingest s (e.arrived time)).subset_ids
  | receive b selector times w => exact ids_subset_of_grows (grows_receive b selector times s w)
  | check b agent unreadOnly => exact List.Subset.refl _
  | read id time => exact ((s.altersOnly_read id time).ids_eq ▸ List.Subset.refl _)
  | archive id time => exact ((s.altersOnly_archive id time).ids_eq ▸ List.Subset.refl _)
  | register b r time =>
    exact ids_subset_of_grows (grows_of_messages_eq (messages_register b r time s))
  | deregister b given time =>
    exact ids_subset_of_grows (grows_of_messages_eq (messages_deregister b given time s))
  | pruneReport days now => exact List.Subset.refl _
  | prune recorder days now w => exact absurd trivial h
  | takeOver w path => exact ids_subset_of_grows (grows_takeOver s w path)

theorem ids_subset_foldl {ops : List (Operation σ)} (h : ∀ op ∈ ops, ¬ op.IsPruning) (s : Store) :
    s.ids ⊆ (ops.foldl Operation.perform s).ids := by
  induction ops generalizing s with
  | nil => exact List.Subset.refl _
  | cons op ops ih =>
    obtain ⟨hop, hops⟩ := List.forall_mem_cons.1 h
    exact fun id hid => ih hops _ (ids_subset_perform hop s hid)

/-! ### A mailbox that has not changed -/

/-- The same files are found in a mailbox as before, and each reads as before. -/
def SameMailbox (w w' : Surroundings) (path : String) : Prop :=
  ∀ files, w.Finds path files → ∃ files', w'.Finds path files' ∧
    ∀ p ∈ legacyFolders, (files' p).Perm (files p) ∧
      ∀ k ∈ files p, w'.tree.readText k = w.tree.readText k

theorem perm_inOrder {files files' : String × Bool → List Location}
    (h : ∀ p ∈ legacyFolders, (files' p).Perm (files p)) :
    (inOrder files').Perm (inOrder files) :=
  List.Perm.flatMap_left _ fun p hp => (h p hp).map _

theorem legacyMessage?_congr {k : Location} (h : w'.tree.readText k = w.tree.readText k)
    (archived : Bool) : legacyMessage? w' archived k = legacyMessage? w archived k := by
  rw [legacyMessage?, legacyMessage?, h]

theorem messagesOf_congr {files : String × Bool → List Location}
    (h : ∀ p ∈ legacyFolders, ∀ k ∈ files p, w'.tree.readText k = w.tree.readText k) :
    messagesOf w' (inOrder files) = messagesOf w (inOrder files) := by
  refine List.filterMap_congr fun f hf => ?_
  obtain ⟨name, hname, hk⟩ := mem_flatMap_files.1 hf
  exact legacyMessage?_congr (h _ hname f.1 hk) f.2

/-- A mailbox at a path that is free of patterns is the same if what stands in its folder is. -/
theorem sameMailbox_of_node?_eq {l : Location} (ht : w.tree.Sound) (ht' : w'.tree.Sound)
    (hplace : w.locate path = .ok l) (hplace' : w'.locate path = .ok l)
    (hliteral : IsLiteral path.toList) (h : ∀ k, l <+: k → w'.tree.node? k = w.tree.node? k) :
    SameMailbox w w' path := by
  intro files hfinds
  have hfolder : ∀ k, l <+: k → w'.tree.hasFolder k = w.tree.hasFolder k := by
    intro k hk
    rw [Tree.hasFolder, Tree.hasFolder, h k hk]
  have hl : w'.tree.hasFolder l = true := by
    rw [hfolder l List.prefix_rfl, ← isFolder_eq hplace, hfinds.isFolder]
  have hentry : ∀ name k, IsToonEntry w'.tree (l ++ [name]) k ↔
      IsToonEntry w.tree (l ++ [name]) k := by
    intro name k
    rw [IsToonEntry, IsToonEntry, hfolder _ (List.prefix_append l _)]
    refine and_congr_right fun _ => and_congr_left ?_
    rintro ⟨entry, rfl, -⟩
    rw [ht.mem_locations_iff (List.concat_ne_nil _ _),
      ht'.mem_locations_iff (List.concat_ne_nil _ _), List.append_assoc,
      h _ (List.prefix_append l _)]
  have hfiles : ∀ p ∈ legacyFolders, ∃ ks, legacyFiles w' (PathText.join path p.1) = .ok ks ∧
      ks.Perm (files p) ∧ ∀ k ∈ files p, w'.tree.readText k = w.tree.readText k := by
    intro p hp
    obtain ⟨hname, hchars⟩ := isFileName_of_mem_legacyFolders hp
    obtain ⟨ks, hks, hnodup, hmem⟩ := legacyFiles_eq hplace' hl hliteral hname hchars
    obtain ⟨hnodup', hmem'⟩ := hfinds.entries hplace hliteral hp
    refine ⟨ks, hks, (List.perm_ext_iff_of_nodup hnodup hnodup').2 fun k => ?_, fun k hk => ?_⟩
    · rw [hmem, hmem', hentry]
    · obtain ⟨-, -, entry, rfl, -⟩ := (hmem' k).1 hk
      have hnode := h (l ++ [p.1] ++ [entry]) (List.append_assoc l _ _ ▸ List.prefix_append l _)
      rw [Tree.readText, Tree.readText, Tree.read, Tree.read, hnode]
  choose! files' hfound hsame using hfiles
  exact ⟨files', ⟨(isFolder_eq hplace').trans hl, hfound⟩, hsame⟩

/-! ### The second run -/

/-- If a mailbox is taken over again, whatever was done in between short of pruning, nothing is
imported and nothing changes. What was imported or there before is there now, and what was skipped
is skipped again. -/
theorem taking_over_again_changes_nothing {s s₁ : Store} {w w' : Surroundings} {path : String}
    {report : Import} {ops : List (Operation σ)} (hfirst : s.takeOver w path = (.ok report, s₁))
    (hops : ∀ op ∈ ops, ¬ op.IsPruning) (hsame : SameMailbox w w' path) :
    (ops.foldl Operation.perform s₁).takeOver w' path =
      (.ok ⟨0, report.imported + report.duplicates, report.skipped⟩,
        ops.foldl Operation.perform s₁) := by
  obtain ⟨files, hfinds, hall⟩ := takeOver_eq_ok_iff.1 hfirst
  obtain ⟨files', hfinds', hunchanged⟩ := hsame files hfinds
  have hperm := perm_inOrder fun p hp => (hunchanged p hp).1
  have hmessages : (messagesOf w' (inOrder files')).Perm (messagesOf w (inOrder files)) := by
    rw [← messagesOf_congr fun p hp => (hunchanged p hp).2]
    exact hperm.filterMap _
  have htakes := takesOver_all (w := w) (inOrder files) (s, ⟨0, 0, 0⟩)
  rw [hall] at htakes
  have hheld : ∀ m ∈ messagesOf w' (inOrder files'), m.id ∈ (ops.foldl Operation.perform s₁).ids :=
    fun m hm => ids_subset_foldl hops s₁ (htakes.stored m (hmessages.subset hm))
  have hcounted := htakes.counted
  have hskipped := htakes.skipped
  dsimp only at hcounted hskipped
  have hduplicates :
      (messagesOf w (inOrder files)).length = report.imported + report.duplicates := by
    omega
  have hothers :
      (inOrder files).length - (messagesOf w (inOrder files)).length = report.skipped := by
    omega
  refine takeOver_eq_ok_iff.2 ⟨files', hfinds', ?_⟩
  rw [takeOverAll_of_held hheld, hmessages.length_eq, hperm.length_eq, hothers, hduplicates]

/-- A mailbox with a record in the inbox, the same one in the archive, and scribble in the
outbox. -/
def untidyMailbox : Surroundings :=
  { Surroundings.bare with
    tree := ⟨[(["mail"], .folder),
      (["mail", "archive"], .folder),
      (["mail", "archive", "1.toon"], recordFile "m1"),
      (["mail", "inbox"], .folder),
      (["mail", "inbox", "1.toon"], recordFile "m1"),
      (["mail", "outbox"], .folder),
      (["mail", "outbox", "1.toon"], .file ⟨.bytes [0x68, 0x69], 0⟩)]⟩ }

/-- The same mailbox later on, beside a new folder. -/
def untidyMailboxLater : Surroundings :=
  { untidyMailbox with tree := untidyMailbox.tree.put ["notes"] .folder }

/-- What is done with its message, and another one that comes in. -/
def dayAtTheDesk : List (Operation Unit) :=
  [.read "m1" "2025-02-01T09:00:00.000Z", .archive "m1" "2025-02-01T09:30:00.000Z",
    .ingest ⟨"m2", "c", "b", .request, .normal, noConvoy, "hi"⟩ "2025-02-01T10:00:00.000Z"]

/-- The message that was archived stays archived. -/
theorem taking_over_again_changes_nothing_dayAtTheDesk :
    ∃ s₁, Store.empty.takeOver untidyMailbox "/mail" = (.ok ⟨1, 1, 1⟩, s₁) ∧
      (∀ op ∈ dayAtTheDesk, ¬ op.IsPruning) ∧
      SameMailbox untidyMailbox untidyMailboxLater "/mail" ∧
      (dayAtTheDesk.foldl Operation.perform s₁).takeOver untidyMailboxLater "/mail" =
        (.ok ⟨0, 2, 1⟩, dayAtTheDesk.foldl Operation.perform s₁) ∧
      (dayAtTheDesk.foldl Operation.perform s₁).messages.map (fun r => (r.id, r.status)) =
        [("m1", "archived"), ("m2", "unread")] := by
  have hplace : untidyMailbox.locate "/mail" = .ok ["mail"] := by decide +kernel
  have hfinds : untidyMailbox.Finds "/mail" fun p => [["mail", p.1, "1.toon"]] :=
    Surroundings.finds_of_entries hplace rfl (by decide) (by decide) (by decide) (by decide)
  have hfirst : Store.empty.takeOver untidyMailbox "/mail" =
      (.ok ⟨1, 1, 1⟩, { Store.empty with messages := [(fromRecord "m1").row] }) :=
    takeOver_eq_ok_iff.2 ⟨_, hfinds, by decide +kernel⟩
  have hops : ∀ op ∈ dayAtTheDesk, ¬ op.IsPruning := by
    simp only [dayAtTheDesk, List.forall_mem_cons, Operation.IsPruning, not_false_eq_true]
    exact ⟨trivial, trivial, trivial, List.forall_mem_nil _⟩
  have hsame : SameMailbox untidyMailbox untidyMailboxLater "/mail" := by
    refine sameMailbox_of_node?_eq (by decide) (by decide) hplace (by decide +kernel) (by decide) ?_
    rintro _ ⟨rest, rfl⟩
    exact Tree.node?_put_of_ne fun heq => absurd (List.cons.inj heq).1 (by decide)
  exact ⟨_, hfirst, hops, hsame, taking_over_again_changes_nothing hfirst hops hsame,
    by decide +kernel⟩

end Mailroom
