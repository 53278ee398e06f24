/-
Opening a store brings its file to the present schema, and loses nothing.

A file is brought to the present schema in three stages, each of which does nothing if it has been
done before. No stage takes a row away or lowers the version, so it makes no difference to a store
which stages an opening that was cut short has done already, or how often any of them is repeated.

* `Stage.IsDone` — a stage that has nothing left to do;
* `upgrade_runAll`, `runAll_of_complete` — any of them, in any order, and all of them;
* `makeParent_of_locate` — no folder is made for a file that is there;
* `Surroundings.HoldsDatabase`, `HoldsDatabase.openStore` — opening a file once;
* `opening_upgrades_without_loss` — opening a file of any release, again and again.
-/
import Mailroom.Proofs.Files.Trees
import Mailroom.Proofs.Transport.Stream
import Mailroom.Store.Opening

namespace Mailroom

namespace Database

/-! ### Stages -/

namespace Stage

/-- Whether a stage has nothing left to do. -/
def IsDone : Stage → Database → Prop
  | messages, d => d.messages.isSome = true
  | roster, d => d.roster.isSome = true
  | version, d => schemaVersion ≤ d.version

variable {d : Database} {stage : Stage}

theorem isDone_run (stage : Stage) (d : Database) : stage.IsDone (stage.run d) := by
  obtain ⟨ms, agents, v⟩ := d
  cases stage with
  | messages => cases ms <;> rfl
  | roster => cases agents <;> rfl
  | version =>
    rw [run]
    split
    · exact Int.le_refl _
    · rename_i hlate
      exact Int.not_lt.1 hlate

/-- What is done stays done. -/
theorem IsDone.run (h : stage.IsDone d) (next : Stage) : stage.IsDone (next.run d) := by
  by_cases heq : next = stage
  · rw [heq]
    exact isDone_run stage d
  · cases next <;> cases stage <;> first | exact absurd rfl heq | (rw [Stage.run]; split <;> exact h)

/-- A stage keeps what a store has of the file: its rows, and the greater of the versions. -/
theorem upgrade_run (stage : Stage) (d : Database) : (stage.run d).upgrade = d.upgrade := by
  obtain ⟨ms, agents, v⟩ := d
  rw [upgrade_eq, upgrade_eq]
  cases stage with
  | messages => cases ms <;> rfl
  | roster => cases agents <;> rfl
  | version =>
    rw [run]
    split
    · rename_i hearly
      have hmax : max schemaVersion v = schemaVersion := max_eq_left (Int.le_of_lt hearly)
      simp only [hmax, max_self]
    · rfl

theorem upgrade_runAll (stages : List Stage) (d : Database) :
    (runAll stages d).upgrade = d.upgrade := by
  induction stages generalizing d with
  | nil => rfl
  | cons stage stages ih => exact (ih (stage.run d)).trans (upgrade_run stage d)

theorem IsDone.runAll (h : stage.IsDone d) (stages : List Stage) :
    stage.IsDone (runAll stages d) := by
  induction stages generalizing d with
  | nil => exact h
  | cons next stages ih => exact ih (h.run next)

theorem isDone_runAll {stages : List Stage} (h : stage ∈ stages) :
    stage.IsDone (runAll stages d) := by
  induction stages generalizing d with
  | nil => exact absurd h List.not_mem_nil
  | cons next stages ih =>
    rcases List.mem_cons.1 h with rfl | h
    · exact (isDone_run stage d).runAll stages
    · exact ih h

theorem database_upgrade (h : ∀ stage : Stage, stage.IsDone d) : d.upgrade.database = d := by
  obtain ⟨ms, agents, v⟩ := d
  obtain ⟨rows, rfl⟩ := Option.isSome_iff_exists.1 (h messages)
  obtain ⟨roster, rfl⟩ := Option.isSome_iff_exists.1 (h roster)
  have hmax : max schemaVersion v = v := max_eq_right (h version)
  simp only [upgrade_eq, Store.database, Option.getD_some, hmax]

/-- After all stages, in any order and with any of them repeated, the file is that of the store. -/
theorem runAll_of_complete {stages : List Stage} (h : ∀ stage : Stage, stage ∈ stages) :
    runAll stages d = d.upgrade.database := by
  rw [← upgrade_runAll stages d, database_upgrade fun stage => isDone_runAll (h stage)]

theorem mem_all (stage : Stage) : stage ∈ all := by cases stage <;> decide

end Stage

end Database

/-! ### Files -/

namespace Surroundings

variable {w : Surroundings} {path : String} {l : Location} {d : Database}

/-- All folders on the way to where a path leads are there. -/
theorem makeParent_of_locate (ht : w.tree.Sound) (hl : w.locate path = .ok l) :
    w.makeParent path = .ok w := by
  obtain ⟨-, hfollow, -⟩ := Tree.locate_eq_ok.1 hl
  by_cases hnone : (PathText.parts path).dropLast = []
  · rw [makeParent, hnone]
  · obtain ⟨hparts, habsolute⟩ := PathText.parts_parent hnone
    have hne : PathText.parts path ≠ [] := fun hnil => hnone (by rw [hnil]; rfl)
    rw [← List.dropLast_append_getLast hne] at hfollow
    have hfolder := Tree.hasFolder_of_follow_append hfollow
    have hmade : w.makeParent path = w.makeFolders ((if PathText.isAbsolute path then "/" else "") ++
        "/".intercalate (PathText.parts path).dropLast) := by
      rw [makeParent]
      split
      · rename_i hnil
        exact absurd hnil hnone
      · rename_i parents _
        rfl
    rw [hmade, makeFolders, hparts, habsolute]
    show (w.tree.makeFolders (List.foldl Tree.stepFrom _ _) >>= fun tree =>
      pure { w with tree }) = _
    rw [Tree.makeFolders_of_hasFolder ht hfolder]
    rfl

/-- A path leads to a file that holds a database. -/
structure HoldsDatabase (w : Surroundings) (path : String) (l : Location) (d : Database) :
    Prop where
  sound : w.tree.Sound
  leads : w.locate path = .ok l
  stands : ∃ modified, w.tree.file? l = some ⟨.database d, modified⟩

namespace HoldsDatabase

variable (h : w.HoldsDatabase path l d)

include h

theorem database_eq : w.database path = .ok d := by
  obtain ⟨modified, hfile⟩ := h.stands
  rw [database, h.leads]
  dsimp only
  rw [Tree.file?_eq_some_iff.1 hfile]
  rfl

/-- Opening writes the file and nothing else. -/
theorem openStore : w.openStore path = .ok (d.upgrade,
    { w with tree := w.tree.put l (.file ⟨.database d.upgrade.database, w.millis⟩) }) := by
  obtain ⟨modified, hfile⟩ := h.stands
  have hkept : w.keepStore path d.upgrade = .ok
      { w with tree := w.tree.put l (.file ⟨.database d.upgrade.database, w.millis⟩) } := by
    rw [keepStore, write, h.leads]
    show Except.mapError Error.file (w.tree.write l _ _ >>= fun tree => pure { w with tree }) = _
    rw [Tree.write_of_file? h.sound hfile]
    rfl
  rw [Surroundings.openStore, makeParent_of_locate h.sound h.leads]
  show (w.database path).mapError Error.storage >>= _ = _
  rw [h.database_eq]
  show (w.keepStore path d.upgrade >>= fun w' => pure (d.upgrade, w')) = _
  rw [hkept]
  rfl

theorem put_database (d' : Database) (now : Int) :
    HoldsDatabase { w with tree := w.tree.put l (.file ⟨.database d', now⟩) } path l d' := by
  obtain ⟨modified, hfile⟩ := h.stands
  have hnew : (w.tree.put l (.file ⟨.database d', now⟩)).file? l = some ⟨.database d', now⟩ :=
    Tree.file?_eq_some_iff.2 (Tree.node?_put_self (Tree.ne_nil_of_file? hfile))
  refine ⟨h.sound.put_file hfile _, ?_, now, hnew⟩
  obtain ⟨hpath, hfollow, hend⟩ := Tree.locate_eq_ok.1 h.leads
  refine Tree.locate_eq_ok.2 ⟨hpath, Tree.follow_of_hasFolder (fun k hk => ?_) hfollow, ?_⟩
  · rw [Tree.hasFolder_put_file hfile]
    exact hk
  · exact fun hslash => hend ⟨hslash.1, Tree.hasFile_eq_true_iff.2 ⟨_, hfile⟩⟩

end HoldsDatabase

open Database

/-- At whatever moment a file is opened that has gone through some stages, it goes through all. -/
theorem HoldsDatabase.exists_openStore {done : List Stage}
    (h : w.HoldsDatabase path l (Stage.runAll done d)) (moment : Time.Instant) :
    ∃ w', { w with clock := moment }.openStore path = .ok (d.upgrade, w') ∧
      w'.HoldsDatabase path l (Stage.runAll Stage.all d) ∧
      ∀ k, k ≠ l → w'.tree.node? k = w.tree.node? k := by
  have hclock : HoldsDatabase { w with clock := moment } path l (Stage.runAll done d) :=
    ⟨h.sound, h.leads, h.stands⟩
  have hopen := hclock.openStore
  rw [Stage.upgrade_runAll] at hopen
  refine ⟨_, hopen, ?_, fun k hk => Tree.node?_put_of_ne hk⟩
  rw [Stage.runAll_of_complete Stage.mem_all]
  exact hclock.put_database d.upgrade.database _

/-- Opens the store in a file at some moments, one after the other. -/
def openEach (path : String) : List Time.Instant → Surroundings →
    Except Error (List Store × Surroundings)
  | [], w => .ok ([], w)
  | moment :: moments, w => do
    let (s, w) ← { w with clock := moment }.openStore path
    let (ss, w) ← openEach path moments w
    return (s :: ss, w)

theorem openEach_cons {moment : Time.Instant} {moments : List Time.Instant} {s : Store}
    {ss : List Store} {w' w'' : Surroundings}
    (hopen : { w with clock := moment }.openStore path = .ok (s, w'))
    (hrest : openEach path moments w' = .ok (ss, w'')) :
    openEach path (moment :: moments) w = .ok (s :: ss, w'') := by
  rw [openEach, hopen]
  show (openEach path moments w' >>= fun x => pure (s :: x.1, x.2)) = _
  rw [hrest]
  rfl

/-- Whatever tables a file has, and whatever version it states, opening it succeeds, with all its
rows as they were and the greater of the two versions, and adds what is missing to the file; this
changes no other file. It makes no difference whether an earlier opening was cut short, or how often
the file is opened again: every opening gives the same store and leaves the same in the file. -/
theorem opening_upgrades_without_loss {done : List Stage}
    (h : w.HoldsDatabase path l (Stage.runAll done d)) (first : Time.Instant)
    (moments : List Time.Instant) :
    ∃ w', openEach path (first :: moments) w = .ok (List.replicate (moments.length + 1)
        ⟨d.messages.getD [], d.roster.getD [], max 2 d.version⟩, w') ∧
      w'.HoldsDatabase path l ⟨some (d.messages.getD []), some (d.roster.getD []), max 2 d.version⟩ ∧
      (∀ k, k ≠ l → w'.tree.node? k = w.tree.node? k) ∧
      Stage.runAll Stage.all d =
        ⟨some (d.messages.getD []), some (d.roster.getD []), max 2 d.version⟩ := by
  have hall : Stage.runAll Stage.all d = d.upgrade.database :=
    Stage.runAll_of_complete Stage.mem_all
  have hstore : d.upgrade = ⟨d.messages.getD [], d.roster.getD [], max 2 d.version⟩ :=
    upgrade_eq d
  rw [hstore] at hall
  -- over the openings; the file that they find has gone through some stages or others
  induction moments generalizing w first done with
  | nil =>
    obtain ⟨w', hopen, hholds, helse⟩ := h.exists_openStore first
    rw [hstore] at hopen
    rw [hall] at hholds
    exact ⟨w', openEach_cons hopen rfl, hholds, helse, hall⟩
  | cons moment moments ih =>
    obtain ⟨w', hopen, hholds, helse⟩ := h.exists_openStore first
    rw [hstore] at hopen
    obtain ⟨w'', hrest, hkept, helse', -⟩ := ih hholds moment
    exact ⟨w'', openEach_cons hopen hrest, hkept, fun k hk => (helse' k hk).trans (helse k hk), hall⟩

/-- A file of messages only that states a version to come. The row stands for no message. -/
def unlisted : Database :=
  ⟨some [⟨"m1", "a", "b", "memo", "urgent", "", "hi", "kept", "yesterday", some "", none⟩], none, 7⟩

/-- A home with this file. An opening that was cut short has added the roster to it. -/
def halfwayHome : Surroundings :=
  { Surroundings.bare with
    tree := ⟨[(["home"], .folder),
      (["home", "mail.db"], .file ⟨.database { unlisted with roster := some [] }, 0⟩),
      (["work"], .folder)]⟩
    folder := ["work"] }

theorem opening_upgrades_without_loss_halfwayHome :
    halfwayHome.HoldsDatabase "../home/./mail.db" ["home", "mail.db"]
        (Stage.runAll [.messages, .roster] unlisted) ∧
      ∃ w', openEach "../home/./mail.db" [⟨0, 0⟩, ⟨0, 0⟩, ⟨60, 0⟩] halfwayHome =
          .ok (List.replicate 3 ⟨unlisted.messages.getD [], [], 7⟩, w') ∧
        w'.HoldsDatabase "../home/./mail.db" ["home", "mail.db"]
          { unlisted with roster := some [] } := by
  have hholds : halfwayHome.HoldsDatabase "../home/./mail.db" ["home", "mail.db"]
      (Stage.runAll [.messages, .roster] unlisted) :=
    ⟨by decide +kernel, by decide +kernel, 0, rfl⟩
  obtain ⟨w', hopen, hkept, -⟩ :=
    opening_upgrades_without_loss hholds ⟨0, 0⟩ [⟨0, 0⟩, ⟨60, 0⟩]
  exact ⟨hholds, w', hopen, hkept⟩

end Surroundings

end Mailroom
