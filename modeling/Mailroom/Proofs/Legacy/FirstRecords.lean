/-
The first record of an id is the one that counts.

A legacy mailbox is taken over folder by folder, and the archive is the last of its folders. A
message whose id is there already is left as it is, so a record in the archive is not archived if a
record of the same id was met in the folders before.

* `Surroundings.Finds`, `takeOver_eq_ok_iff` — taking over succeeds if the files of each folder are
  found, and then takes over all of them in order;
* `filter_takeIn` — of several messages with a new id, the first is stored;
* `archived_unless_recorded_before` — so a record in the archive is archived if and only if the
  first one of its id before it says so, should there be any;
* `copy_hides_archived_record` — a copy in the outbox is taken for the message.
-/
import Mailroom.Proofs.Legacy.Migration

namespace Mailroom

open NamePattern

/-! ### The files of all folders -/

section

variable {w : Surroundings} {path : String}

/-- A path leads to a legacy mailbox, in the folders of which these files are found. -/
structure Surroundings.Finds (w : Surroundings) (path : String)
    (files : String × Bool → List Location) : Prop where
  isFolder : w.isFolder path = true
  found : ∀ p ∈ legacyFolders, legacyFiles w (PathText.join path p.1) = .ok (files p)

/-- The files of all folders in the order in which they are taken over, each with whether it comes
from the archive. -/
def inOrder (files : String × Bool → List Location) : List (Location × Bool) :=
  legacyFolders.flatMap fun p => (files p).map (·, p.2)

theorem exists_legacyFiles {folders : List (String × Bool)} {state : Store × Import}
    {report : Import} (h : (takeOverFolders w path folders state).1 = .ok report) :
    ∀ p ∈ folders, ∃ ks, legacyFiles w (PathText.join path p.1) = .ok ks := by
  induction folders generalizing state with
  | nil => exact List.forall_mem_nil _
  | cons p folders ih =>
    obtain ⟨name, archived⟩ := p
    rw [takeOverFolders_cons] at h
    cases hfiles : legacyFiles w (PathText.join path name) with
    | error e =>
      rw [hfiles] at h
      exact absurd h nofun
    | ok ks =>
      rw [hfiles] at h
      exact List.forall_mem_cons.2 ⟨⟨ks, hfiles⟩, ih h⟩

theorem Surroundings.Finds.takeOver_eq {files : String × Bool → List Location}
    (h : w.Finds path files) (s : Store) :
    s.takeOver w path =
      let after := takeOverAll w (inOrder files) (s, ⟨0, 0, 0⟩)
      (.ok after.2, after.1) := by
  rw [Store.takeOver, if_pos h.isFolder]
  exact takeOverFolders_of_files h.found _

/-- Taking over succeeds if and only if the files of each folder are found, and then all of them
are taken over, one after another. -/
theorem takeOver_eq_ok_iff {s s' : Store} {report : Import} :
    s.takeOver w path = (.ok report, s') ↔ ∃ files, w.Finds path files ∧
      takeOverAll w (inOrder files) (s, ⟨0, 0, 0⟩) = (s', report) := by
  constructor
  · intro h
    have hfolder : w.isFolder path = true := by
      by_contra hnot
      rw [Store.takeOver, if_neg hnot] at h
      exact absurd (Prod.mk.inj h).1 (by simp)
    have hok := h
    rw [Store.takeOver, if_pos hfolder] at hok
    choose! files hfiles using exists_legacyFiles (congrArg Prod.fst hok)
    have hfinds : w.Finds path files := ⟨hfolder, hfiles⟩
    rw [hfinds.takeOver_eq] at h
    obtain ⟨hreport, hstore⟩ := Prod.mk.inj h
    exact ⟨files, hfinds, Prod.ext hstore (Except.ok.inj hreport)⟩
  · rintro ⟨files, hfinds, hall⟩
    rw [hfinds.takeOver_eq, hall]

/-- If the path of a mailbox is free of patterns, its own files are found. -/
theorem Surroundings.Finds.entries {files : String × Bool → List Location}
    (h : w.Finds path files) {l : Location} (hplace : w.locate path = .ok l)
    (hliteral : IsLiteral path.toList) {p : String × Bool} (hp : p ∈ legacyFolders) :
    (files p).Nodup ∧ ∀ k, k ∈ files p ↔ IsToonEntry w.tree (l ++ [p.1]) k := by
  have hl : w.tree.hasFolder l = true := (isFolder_eq hplace).symm.trans h.isFolder
  obtain ⟨hname, hchars⟩ := isFileName_of_mem_legacyFolders hp
  obtain ⟨ks, hfiles, hnodup, hks⟩ := legacyFiles_eq hplace hl hliteral hname hchars
  obtain rfl := Except.ok.inj ((h.found p hp).symm.trans hfiles)
  exact ⟨hnodup, hks⟩

theorem isToonEntry_iff {t : Tree} {folder k : Location} : IsToonEntry t folder k ↔
    t.hasFolder folder = true ∧ k ∈ t.locations ∧ k = folder ++ [k.getLastD ""] ∧
      ".toon".toList <:+ (k.getLastD "").toList := by
  refine and_congr_right fun _ => and_congr_right fun _ => ⟨?_, fun h => ⟨_, h⟩⟩
  rintro ⟨name, rfl, hending⟩
  rw [List.getLastD_concat]
  exact ⟨rfl, hending⟩

instance (t : Tree) (folder k : Location) : Decidable (IsToonEntry t folder k) :=
  decidable_of_iff _ isToonEntry_iff.symm

/-- What is found in folders with at most one such file. -/
theorem Surroundings.finds_of_entries {files : String × Bool → List Location} {l : Location}
    (hplace : w.locate path = .ok l) (hl : w.tree.hasFolder l = true)
    (hliteral : IsLiteral path.toList)
    (hlength : ∀ p ∈ legacyFolders, (files p).length ≤ 1)
    (hthere : ∀ p ∈ legacyFolders, ∀ k ∈ files p, IsToonEntry w.tree (l ++ [p.1]) k)
    (hall : ∀ p ∈ legacyFolders, ∀ k ∈ w.tree.locations,
      IsToonEntry w.tree (l ++ [p.1]) k → k ∈ files p) : w.Finds path files := by
  refine ⟨(isFolder_eq hplace).trans hl, fun p hp => ?_⟩
  obtain ⟨hname, hchars⟩ := isFileName_of_mem_legacyFolders hp
  obtain ⟨ks, hfiles, hnodup, hks⟩ := legacyFiles_eq hplace hl hliteral hname hchars
  have hsame : ∀ k, k ∈ ks ↔ k ∈ files p := fun k =>
    (hks k).trans ⟨fun hk => hall p hp k hk.2.1 hk, hthere p hp k⟩
  have hlength := hlength p hp
  rw [hfiles]
  cases hp' : files p with
  | nil =>
    rw [hp'] at hsame
    rw [List.eq_nil_iff_forall_not_mem.2 fun k hk => List.not_mem_nil ((hsame k).1 hk)]
  | cons k rest =>
    rw [hp', List.length_cons] at hlength
    obtain rfl : rest = [] := List.length_eq_zero_iff.1 (by omega)
    rw [hp'] at hsame
    have hperm := (List.perm_ext_iff_of_nodup hnodup (List.nodup_singleton k)).2 hsame
    rw [List.perm_singleton.1 hperm]

end

/-! ### The row of an id -/

section

variable {s : Store} {ms : List Message} {id : String}

theorem filter_id_eq_nil (h : id ∉ s.ids) : s.messages.filter (·.id == id) = [] := by
  rw [List.filter_eq_nil_iff]
  intro r hr hid
  exact h (List.mem_map.2 ⟨r, hr, beq_iff_eq.1 hid⟩)

theorem filter_takeIn_of_held (h : id ∈ s.ids) :
    (s.takeIn ms).messages.filter (·.id == id) = s.messages.filter (·.id == id) := by
  obtain ⟨ns, hadds, -⟩ := s.adds_takeIn ms
  have hnone : (ns.map Message.row).filter (·.id == id) = [] := by
    rw [List.filter_eq_nil_iff]
    intro r hr hid
    obtain ⟨n, hn, rfl⟩ := List.mem_map.1 hr
    have hn' : n.id = id := beq_iff_eq.1 hid
    exact hadds.fresh n hn (hn' ▸ h)
  rw [hadds.messages, List.filter_append, hnone, List.append_nil]

/-- Of the messages that come in with a new id, the first one is stored. -/
theorem filter_takeIn (h : id ∉ s.ids) :
    (s.takeIn ms).messages.filter (·.id == id) =
      ((ms.find? (·.id == id)).map Message.row).toList := by
  induction ms generalizing s with
  | nil => exact filter_id_eq_nil h
  | cons m ms ih =>
    rw [Store.takeIn_cons]
    by_cases hid : m.id = id
    · have hheld : id ∈ (s.ingest m).1.ids := mem_ids_ingest.2 (.inr hid.symm)
      have hfresh : s.holds m.id = false := Store.holds_eq_false_iff.2 (hid ▸ h)
      have hfind : (m :: ms).find? (·.id == id) = some m :=
        List.find?_cons_of_pos (beq_iff_eq.2 hid)
      have hrow : [m.row].filter (·.id == id) = [m.row] :=
        List.filter_eq_self.2 fun r hr => by
          rw [List.mem_singleton.1 hr]
          exact beq_iff_eq.2 hid
      rw [filter_takeIn_of_held hheld, hfind, Store.ingest, if_neg (hfresh ▸ Bool.false_ne_true),
        List.filter_append, filter_id_eq_nil h, hrow]
      rfl
    · have hstill : id ∉ (s.ingest m).1.ids := by
        rw [mem_ids_ingest, not_or]
        exact ⟨h, Ne.symm hid⟩
      have hfind : (m :: ms).find? (·.id == id) = ms.find? (·.id == id) :=
        List.find?_cons_of_neg fun heq => hid (beq_iff_eq.1 heq)
      rw [ih hstill, hfind]

end

/-! ### Records in the archive -/

section

variable {w : Surroundings} {path : String}

theorem takeOverAll_fst (files : List (Location × Bool)) (state : Store × Import) :
    (takeOverAll w files state).1 = state.1.takeIn (messagesOf w files) := by
  induction files generalizing state with
  | nil => rfl
  | cons f files ih =>
    have hmessages : messagesOf w (f :: files) =
        (legacyMessage? w f.2 f.1).toList ++ messagesOf w files := by
      rw [← messagesOf_singleton, messagesOf, messagesOf, messagesOf, ← List.filterMap_append,
        List.singleton_append]
    rw [hmessages, Store.takeIn_append, ← takeOverFile_eq]
    exact ih _

/-- A record in the archive is read as an archived message. -/
theorem status_of_legacyMessage? {k : Location} {m : Message}
    (h : legacyMessage? w true k = some m) : m.status = .archived := by
  obtain ⟨content, hparse⟩ := exists_parse_of_legacyMessage? h
  obtain ⟨f, payload, hmessage⟩ := exists_message_of_parse hparse
  obtain ⟨-, time, status, type, priority, -, hstatus, -, -, rfl⟩ := message_eq_ok_iff.1 hmessage
  exact hstatus.symm

/-- The files of the folders that come before the archive. -/
def beforeArchive (files : String × Bool → List Location) : List (Location × Bool) :=
  [("inbox", false), ("outbox", false)].flatMap fun p => (files p).map (·, p.2)

theorem messagesOf_inOrder (files : String × Bool → List Location) :
    messagesOf w (inOrder files) = messagesOf w (beforeArchive files) ++
      messagesOf w ((files ("archive", true)).map (·, true)) := by
  have hfiles : inOrder files = beforeArchive files ++ (files ("archive", true)).map (·, true) := by
    simp only [inOrder, beforeArchive, legacyFolders, List.flatMap_cons, List.flatMap_nil,
      List.append_assoc, List.append_nil]
  rw [hfiles]
  exact List.filterMap_append

/-- After a mailbox was taken over, a message in its archive whose id is new is stored once, as the
first record of the id has it. It is archived if and only if the first record of the id in the inbox
and the outbox, should there be any, is one of an archived message. -/
theorem archived_unless_recorded_before {s s' : Store} {report : Import}
    (h : s.takeOver w path = (.ok report, s')) :
    ∃ files, w.Finds path files ∧
      (∀ l, w.locate path = .ok l → IsLiteral path.toList → ∀ p ∈ legacyFolders,
        (files p).Nodup ∧ ∀ k, k ∈ files p ↔ IsToonEntry w.tree (l ++ [p.1]) k) ∧
      ∀ k ∈ files ("archive", true), ∀ m, legacyMessage? w true k = some m → m.id ∉ s.ids →
        ∃ first, (messagesOf w (inOrder files)).find? (·.id == m.id) = some first ∧
          s'.messages.filter (·.id == m.id) = [first.row] ∧
          (first.status = .archived ↔ ∀ earlier,
            (messagesOf w (beforeArchive files)).find? (·.id == m.id) = some earlier →
              earlier.status = .archived) := by
  obtain ⟨files, hfinds, hall⟩ := takeOver_eq_ok_iff.1 h
  have hstore : s' = s.takeIn (messagesOf w (inOrder files)) := by
    have hfst := takeOverAll_fst (w := w) (inOrder files) (s, ⟨0, 0, 0⟩)
    rw [hall] at hfst
    exact hfst
  refine ⟨files, hfinds, fun l hplace hliteral p hp => hfinds.entries hplace hliteral hp, ?_⟩
  intro k hk m hm hfresh
  have harchive : m ∈ messagesOf w ((files ("archive", true)).map (·, true)) :=
    List.mem_filterMap.2 ⟨(k, true), List.mem_map_of_mem hk, hm⟩
  obtain ⟨first, hfirst⟩ : ∃ first,
      (messagesOf w (inOrder files)).find? (·.id == m.id) = some first := by
    rw [← Option.isSome_iff_exists, List.find?_isSome]
    refine ⟨m, ?_, beq_self_eq_true _⟩
    rw [messagesOf_inOrder]
    exact List.mem_append_right _ harchive
  refine ⟨first, hfirst, ?_, ?_⟩
  · rw [hstore, filter_takeIn hfresh, hfirst]
    rfl
  · rw [messagesOf_inOrder, List.find?_append] at hfirst
    cases hbefore : (messagesOf w (beforeArchive files)).find? (·.id == m.id) with
    | none =>
      -- only records in the archive are left, and each of them is archived
      rw [hbefore, Option.none_or] at hfirst
      obtain ⟨f, hf, hrecord⟩ := List.mem_filterMap.1 (List.mem_of_find?_eq_some hfirst)
      obtain ⟨k', -, rfl⟩ := List.mem_map.1 hf
      exact ⟨fun _ _ hnone => absurd hnone nofun, fun _ => status_of_legacyMessage? hrecord⟩
    | some earlier =>
      rw [hbefore, Option.some_or] at hfirst
      obtain rfl := Option.some.inj hfirst
      constructor
      · intro harchived e he
        obtain rfl := Option.some.inj he
        exact harchived
      · exact fun hall => hall _ rfl

end

/-! ### A copy in the outbox -/

/-- A legacy mailbox that two agents share. What one of them has sent and the other one has put into
the archive is in the outbox and in the archive. -/
def sharedMailbox : Surroundings :=
  { Surroundings.bare with
    tree := ⟨[(["mail"], .folder),
      (["mail", "archive"], .folder),
      (["mail", "archive", "1.toon"], recordFile "m1"),
      (["mail", "outbox"], .folder),
      (["mail", "outbox", "1.toon"], recordFile "m1")]⟩ }

/-- The files in its folders. -/
def sharedFiles (p : String × Bool) : List Location :=
  if p.1 = "inbox" then [] else [["mail", p.1, "1.toon"]]

theorem finds_sharedFiles : sharedMailbox.Finds "/mail" sharedFiles :=
  Surroundings.finds_of_entries (l := ["mail"]) (by decide +kernel) rfl (by decide) (by decide)
    (by decide) (by decide)

/-- The mailbox after that one was taken over: there is one message, and it is unread. -/
theorem takeOver_sharedMailbox : Store.empty.takeOver sharedMailbox "/mail" =
    (.ok ⟨1, 1, 0⟩, { Store.empty with messages := [(fromRecord "m1").row] }) :=
  takeOver_eq_ok_iff.2 ⟨_, finds_sharedFiles, by decide +kernel⟩

/-- The record in the archive is one of an archived message, but the message is stored unread. -/
theorem copy_hides_archived_record :
    ∃ s', Store.empty.takeOver sharedMailbox "/mail" = (.ok ⟨1, 1, 0⟩, s') ∧
      IsToonEntry sharedMailbox.tree ["mail", "archive"] ["mail", "archive", "1.toon"] ∧
      (legacyMessage? sharedMailbox true ["mail", "archive", "1.toon"]).map
        (fun m => (m.id, m.status)) = some ("m1", .archived) ∧
      s'.messages = [(fromRecord "m1").row] ∧ (fromRecord "m1").status = .unread :=
  ⟨_, takeOver_sharedMailbox, by decide, by decide +kernel, rfl, rfl⟩

/-- The record in the outbox decides, and it is not one of an archived message. -/
theorem archived_unless_recorded_before_shared :
    ∃ report s', Store.empty.takeOver sharedMailbox "/mail" = (.ok report, s') ∧
      ∃ first : Message, s'.messages.filter (·.id == "m1") = [first.row] ∧
        first.status ≠ .archived := by
  refine ⟨_, _, takeOver_sharedMailbox, ?_⟩
  obtain ⟨files, hfinds, -, hrows⟩ := archived_unless_recorded_before takeOver_sharedMailbox
  have hfiles : ∀ p ∈ legacyFolders, files p = sharedFiles p := fun p hp =>
    Except.ok.inj ((hfinds.found p hp).symm.trans (finds_sharedFiles.found p hp))
  have hbefore : beforeArchive files = beforeArchive sharedFiles := by
    simp only [beforeArchive, List.flatMap_cons, List.flatMap_nil,
      hfiles ("inbox", false) (by decide), hfiles ("outbox", false) (by decide)]
  have hmem : ["mail", "archive", "1.toon"] ∈ files ("archive", true) := by
    rw [hfiles _ (by decide)]
    decide
  obtain ⟨first, -, hrow, hstatus⟩ := hrows _ hmem
    { fromRecord "m1" with
      status := .archived
      readAt := some "2025-01-01T00:00:00.000Z"
      archivedAt := some "2025-01-01T00:00:00.000Z" } (by decide +kernel) (by decide)
  refine ⟨first, hrow, fun harchived => ?_⟩
  rw [hbefore] at hstatus
  exact absurd (hstatus.1 harchived (fromRecord "m1") (by decide +kernel)) (by decide)

end Mailroom
