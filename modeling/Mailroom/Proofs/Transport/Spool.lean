/-
What a spool hands over.

A fetch reads the files of the spool by name. A file that does not begin with an envelope is
passed over, though later lines of it may be envelopes; and committing moves it all the same,
so what it holds is lost.

* `File.envelopes`, `File.isPassedOver` — the envelopes in a file, and whether they are lost;
* `envelopesInFile_eq` — nothing else is left out;
* `ReadsSpool` — what a fetch gives;
* `spool_is_handed_over` — a fetch and its commit;
* `greeting_hides_envelope` — an envelope after a greeting;
* `commit_takes_over_what_was_fetched` — what the commit does, file by file.
-/
import Mailroom.Mailbox.Arrival
import Mailroom.Proofs.EnvelopeReading
import Mailroom.Proofs.Files.Trees
import Mailroom.Proofs.Transport.SpoolCommit
import Mailroom.Proofs.Transport.Stream
import Mailroom.Transport.Simplex
import Mathlib.Data.List.Flatten

namespace Mailroom

/-! ### Envelopes in a file -/

namespace File

/-- The text of a file, if its bytes are one. -/
def text? (f : File) : Option (List Char) :=
  match f.contents with
  | .bytes data => (Text.decode? data).map String.toList
  | _ => none

/-- The envelopes in the lines of a file, wherever the lines stand. -/
def envelopes (f : File) : List Envelope :=
  match f.text? with
  | some text => (Text.lines text).filterMap Envelope.decodeChars?
  | none => []

/-- Whether a file holds envelopes but does not begin with one. -/
def isPassedOver (f : File) : Bool :=
  !f.envelopes.isEmpty && f.text?.all fun text => !looksLikeEnvelope text

end File

/-- Lines that are no envelopes may be left out before they are read. -/
theorem filterMap_filter_looksLikeEnvelope (lines : List (List Char)) :
    (lines.filter looksLikeEnvelope).filterMap Envelope.decodeChars? =
      lines.filterMap Envelope.decodeChars? := by
  rw [List.filterMap_filter]
  refine List.filterMap_congr fun line _ => ?_
  split
  · rfl
  · rename_i hmarked
    cases hread : Envelope.decodeChars? line with
    | none => rfl
    | some e => exact absurd (Envelope.looksLikeEnvelope_of_decodeChars? hread) hmarked

theorem envelopesInFile_of_text? {f : File} :
    envelopesInFile f = (f.text?.map envelopesInText).getD [] := by
  unfold envelopesInFile File.text?
  cases f.contents with
  | bytes data =>
    dsimp only
    cases Text.decode? data with
    | none => rfl
    | some text => rfl
  | database d => rfl
  | program run => rfl

theorem envelopesInFile_eq (f : File) :
    envelopesInFile f = if f.isPassedOver then [] else f.envelopes := by
  -- where there are no envelopes it does not matter how the text begins
  have hkey : ∀ (marked : Bool) (es : List Envelope),
      (if marked then es else []) = if !es.isEmpty && !marked then [] else es := by
    intro marked es
    cases marked with
    | true => rw [if_pos rfl, Bool.not_true, Bool.and_false, if_neg Bool.false_ne_true]
    | false =>
      cases es with
      | nil => rfl
      | cons e es => rfl
  rw [envelopesInFile_of_text?, File.isPassedOver, File.envelopes]
  cases f.text? with
  | none => rfl
  | some text =>
    rw [Option.map_some, Option.getD_some, envelopesInText, filterMap_filter_looksLikeEnvelope]
    exact hkey _ _

/-! ### The files of a spool -/

theorem mem_visibleFiles {entries : List (String × Node)} {name : String} {f : File} :
    (name, f) ∈ visibleFiles entries ↔ (name, .file f) ∈ entries ∧ isHidden name = false := by
  rw [visibleFiles, List.mem_filterMap]
  constructor
  · rintro ⟨⟨name', node⟩, hmem, heq⟩
    cases node with
    | folder => exact absurd heq (by simp)
    | file g =>
      dsimp only at heq
      split at heq
      · exact absurd heq (by simp)
      · rename_i hvisible
        obtain ⟨rfl, rfl⟩ := Prod.mk.inj (Option.some.inj heq)
        exact ⟨hmem, Bool.eq_false_of_not_eq_true hvisible⟩
  · rintro ⟨hmem, hvisible⟩
    refine ⟨_, hmem, ?_⟩
    dsimp only
    rw [if_neg (by rw [hvisible]; exact Bool.false_ne_true)]

theorem map_fst_visibleFiles_sublist (entries : List (String × Node)) :
    ((visibleFiles entries).map Prod.fst).Sublist (entries.map Prod.fst) := by
  induction entries with
  | nil => exact .slnil
  | cons entry entries ih =>
    obtain ⟨name, node⟩ := entry
    cases node with
    | folder => exact ih.cons name
    | file f =>
      rw [visibleFiles, List.filterMap_cons]
      dsimp only
      by_cases hhidden : isHidden name
      · rw [if_pos hhidden]
        exact ih.cons name
      · rw [if_neg hhidden]
        exact ih.cons_cons name

section

variable {α β : Type} {p : α → Bool} {g : α → List β}

theorem flatMap_filter (xs : List α) :
    (xs.filter p).flatMap g = xs.flatMap fun x => if p x then g x else [] := by
  induction xs with
  | nil => rfl
  | cons x xs ih =>
    rw [List.flatMap_cons, ← ih]
    by_cases hx : p x = true
    · rw [List.filter_cons_of_pos hx, List.flatMap_cons, if_pos hx]
    · rw [List.filter_cons_of_neg hx, if_neg hx, List.nil_append]

/-- Without elements that have something to give, a concatenation is not the same. -/
theorem flatMap_filter_eq_iff (hp : ∀ x, p x = false → g x ≠ []) {xs : List α} :
    (xs.filter p).flatMap g = xs.flatMap g ↔ ∀ x ∈ xs, p x = true := by
  constructor
  · intro h
    induction xs with
    | nil => exact fun x hx => absurd hx List.not_mem_nil
    | cons x xs ih =>
      by_cases hx : p x = true
      · rw [List.filter_cons_of_pos hx, List.flatMap_cons, List.flatMap_cons,
          List.append_cancel_left_eq] at h
        exact List.forall_mem_cons.2 ⟨hx, ih h⟩
      · -- what is left gives no more than before, and `x` would have given something
        have hle : ((xs.filter p).flatMap g).length ≤ (xs.flatMap g).length :=
          (List.filter_sublist.flatMap g).length_le
        have hpos := List.length_pos_of_ne_nil (hp x (Bool.eq_false_of_not_eq_true hx))
        rw [List.filter_cons_of_neg hx, List.flatMap_cons] at h
        rw [h, List.length_append] at hle
        omega
  · intro h
    rw [List.filter_eq_self.2 h]

end

section

variable {s : SimplexSettings} {w : Surroundings} {l : Location}

/-- The files that a fetch reads from a spool at a location. -/
def filesRead (w : Surroundings) (l : Location) : List (String × File) :=
  visibleFiles (w.tree.children l)

/-- What a fetch gives: it reads `files`, which are all that are not hidden, by name; and it
hands over the envelopes of those that it does not pass over, in their order. -/
structure ReadsSpool (w : Surroundings) (l : Location) (files : List (String × File))
    (fetched : Fetched) : Prop where
  ordered : (files.map Prod.fst).Pairwise (· < ·)
  complete : ∀ name f, (name, f) ∈ files ↔
    w.tree.file? (l ++ [name]) = some f ∧ isHidden name = false
  envelopes : fetched.envelopes =
    (files.filter fun x => !x.2.isPassedOver).flatMap fun x => x.2.envelopes
  /-- nothing is left out if and only if no file is passed over -/
  whole : (fetched.envelopes = files.flatMap fun x => x.2.envelopes) ↔
    ∀ x ∈ files, x.2.isPassedOver = false

variable (hw : w.tree.Sound) (hl : w.locate s.spool = .ok l) (hfolder : w.tree.hasFolder l = true)

include hw in
theorem mem_filesRead {name : String} {f : File} : (name, f) ∈ filesRead w l ↔
    w.tree.file? (l ++ [name]) = some f ∧ isHidden name = false := by
  rw [filesRead, mem_visibleFiles, Tree.mem_children_iff, Tree.file?_eq_some_iff,
    Tree.node?_eq_some_iff hw.distinct (List.concat_ne_nil _ _)]

/-- What a fetch hands over, and the paths of the files that it read. -/
def fetchedFrom (spool : String) (files : List (String × File)) : Fetched :=
  ⟨files.flatMap fun x => envelopesInFile x.2,
    .files (files.map fun x => PathText.join spool x.1)⟩

include hl hfolder in
theorem simplex_fetch : (simplex s).fetch w = (.ok (fetchedFrom s.spool (filesRead w l)), w) := by
  have hnode := Tree.hasFolder_iff.1 hfolder
  have hthere : w.isFolder s.spool = true := by
    rw [Surroundings.isFolder, Surroundings.node?, hl]
    dsimp only
    rw [hnode]
  have hfiles : spoolFiles s.spool w = .ok (filesRead w l) := by
    rw [spoolFiles, bind_eq_ok]
    refine ⟨w.tree.children l, ?_, rfl⟩
    rw [Surroundings.children, bind_eq_ok]
    refine ⟨l, hl, ?_⟩
    rw [hnode]
    rfl
  show (spoolFetch s.spool w, w) = _
  rw [spoolFetch, hthere, hfiles]
  rfl

include hw in
theorem readsSpool (spool : String) :
    ReadsSpool w l (filesRead w l) (fetchedFrom spool (filesRead w l)) := by
  have henvelopes : (fetchedFrom spool (filesRead w l)).envelopes =
      ((filesRead w l).filter fun x => !x.2.isPassedOver).flatMap fun x => x.2.envelopes := by
    show (filesRead w l).flatMap _ = _
    rw [flatMap_filter]
    refine List.flatMap_congr fun x _ => ?_
    rw [envelopesInFile_eq]
    cases x.2.isPassedOver with
    | true => rfl
    | false => rfl
  have hordered : ((filesRead w l).map Prod.fst).Pairwise (· < ·) :=
    (List.pairwise_map.2 (Tree.pairwise_children hw l)).sublist (map_fst_visibleFiles_sublist _)
  refine ⟨hordered, fun name f => mem_filesRead hw, henvelopes, ?_⟩
  have hlost : ∀ x : String × File, (!x.2.isPassedOver) = false → x.2.envelopes ≠ [] := by
    intro x hx
    rw [Bool.not_eq_false', File.isPassedOver, Bool.and_eq_true] at hx
    simpa using hx.1
  rw [henvelopes, flatMap_filter_eq_iff hlost]
  simp only [Bool.not_eq_true']

end

/-! ### A fetch and its commit -/

/-- After a commit, whether it succeeded or not, a file that is new somewhere was read from the
spool. -/
theorem file?_spoolCommit {spool : String} {w : Surroundings} {l k : Location} {f : File}
    (hw : w.tree.Sound) (hl : w.locate spool = .ok l) (hfolder : w.tree.hasFolder l = true)
    (h : (spoolCommit spool (fetchedFrom spool (filesRead w l)).checkpoint w).2.tree.file? k =
      some f) :
    w.tree.file? k = some f ∨
      ∃ name, (name, f) ∈ filesRead w l ∧ k = l ++ [processedName, name] := by
  have hfiles : ∀ x ∈ filesRead w l, w.tree.file? (l ++ [x.1]) = some x.2 := fun x hx =>
    ((mem_filesRead hw).1 hx).1
  have hdistinct : ((filesRead w l).map Prod.fst).Nodup :=
    (readsSpool hw spool).ordered.imp ne_of_lt
  have hcommit := commitOutcome_spoolCommit hw hl hfolder hdistinct hfiles
  have hnew : w.tree.file? k = some f ∨
      ∃ name, (name, f) ∈ filesRead w l ∧ k = takenOver l name := by
    by_cases hok : (spoolCommit spool (fetchedFrom spool (filesRead w l)).checkpoint w).1 = .ok ()
    · exact (hcommit.committed hok).file?_new h
    · exact (hcommit.leftHalfway hok).file?_new hfiles h
  simp only [takenOver, List.append_assoc] at hnew
  exact hnew

/-- A spool is read in the order of the names and of the lines, and every envelope is handed over
but those in files that do not begin with one. No file gets anywhere by the commit that was not
read, and none among what was taken over holds an envelope that was not handed over, unless it was
passed over. -/
theorem spool_is_handed_over {s : SimplexSettings} {w : Surroundings} {l : Location}
    (hw : w.tree.Sound) (hl : w.locate s.spool = .ok l) (hfolder : w.tree.hasFolder l = true) :
    ∃ files fetched, (simplex s).fetch w = (.ok fetched, w) ∧ ReadsSpool w l files fetched ∧
      ∀ k f, ((simplex s).commit fetched.checkpoint w).2.tree.file? k = some f →
        w.tree.file? k = some f ∨ ∃ name, (name, f) ∈ files ∧ k = l ++ [processedName, name] ∧
          (f.isPassedOver = false → ∀ e ∈ f.envelopes, e ∈ fetched.envelopes) := by
  have hreads := readsSpool hw s.spool (l := l)
  refine ⟨_, _, simplex_fetch hl hfolder, hreads, fun k f hk => ?_⟩
  rcases file?_spoolCommit hw hl hfolder hk with hk | ⟨name, hmem, hplace⟩
  · exact .inl hk
  · refine .inr ⟨name, hmem, hplace, fun hnot e he => ?_⟩
    rw [hreads.envelopes]
    refine List.mem_flatMap.2 ⟨(name, f), List.mem_filter.2 ⟨hmem, ?_⟩, he⟩
    rw [hnot]
    rfl

/-! ### Chatter around envelopes -/

/-- A spool with one file. -/
def spoolWith (text : String) : Surroundings :=
  { Surroundings.bare with
    tree := ⟨[(["spool"], .folder),
      (["spool", "001.txt"], .file ⟨.bytes (Text.encodeUtf8 text), 0⟩)]⟩ }

/-- The transport that reads this spool. -/
def spoolPhone : SimplexSettings := ⟨"simplex-chat", none, none, "/spool"⟩

/-- Envelopes for the agent `b`. -/
def textFromX (id : String) : Envelope := ⟨id, "x", "b", .request, .normal, noConvoy, "hi"⟩

/-- A file that begins with an envelope, and goes on with other lines and another one. -/
def talkAfterEnvelope : Surroundings :=
  spoolWith ((textFromX "m1").encode ++ "\nbye\n\r\n" ++ (textFromX "m2").encode)

/-- A file that begins with a greeting and goes on with an envelope. -/
def talkBeforeEnvelope : Surroundings := spoolWith ("hello\n" ++ (textFromX "m1").encode ++ "\n")

theorem sound_spoolWith (text : String) : (spoolWith text).tree.Sound := by
  have hdistinct : [["spool"], ["spool", "001.txt"]].Nodup := by decide
  refine ⟨hdistinct, ?_⟩
  have hspool : (spoolWith text).tree.hasFolder ["spool"] = true := rfl
  show ∀ k ∈ [["spool"], ["spool", "001.txt"]], _
  refine List.forall_mem_cons.2 ⟨?_, List.forall_mem_singleton.2 ?_⟩
  · exact ⟨[], "spool", rfl, by decide, rfl⟩
  · exact ⟨["spool"], "001.txt", rfl, by decide, hspool⟩

/-- Lines of other kinds do no harm once a file has begun with an envelope. -/
theorem spool_is_handed_over_talkAfter :
    talkAfterEnvelope.tree.Sound ∧ talkAfterEnvelope.locate spoolPhone.spool = .ok ["spool"] ∧
      talkAfterEnvelope.tree.hasFolder ["spool"] = true ∧
      ∃ files fetched, (simplex spoolPhone).fetch talkAfterEnvelope =
          (.ok fetched, talkAfterEnvelope) ∧
        ReadsSpool talkAfterEnvelope ["spool"] files fetched ∧
        fetched.envelopes = [textFromX "m1", textFromX "m2"] := by
  have hsound : talkAfterEnvelope.tree.Sound := sound_spoolWith _
  have hl : talkAfterEnvelope.locate spoolPhone.spool = .ok ["spool"] := by decide +kernel
  have hfolder : talkAfterEnvelope.tree.hasFolder ["spool"] = true := rfl
  obtain ⟨files, fetched, hfetch, hreads, -⟩ := spool_is_handed_over hsound hl hfolder
  have hgiven : ((simplex spoolPhone).fetch talkAfterEnvelope).1.toOption.map (·.envelopes) =
      some [textFromX "m1", textFromX "m2"] := by decide +kernel
  rw [hfetch] at hgiven
  exact ⟨hsound, hl, hfolder, files, fetched, hfetch, hreads, Option.some.inj hgiven⟩

/-- After a greeting an envelope is not handed over, and the file is consumed with it. -/
theorem greeting_hides_envelope :
    (talkBeforeEnvelope.tree.file? ["spool", "001.txt"]).map File.envelopes =
        some [textFromX "m1"] ∧
      (poll "b" (simplex spoolPhone) "2025-01-01T00:00:00.000Z" .empty talkBeforeEnvelope).1 =
        .polled 0 0 ∧
      ((poll "b" (simplex spoolPhone) "2025-01-01T00:00:00.000Z" .empty
        talkBeforeEnvelope).2.2.tree.file? ["spool", "processed", "001.txt"]).map File.envelopes =
          some [textFromX "m1"] ∧
      (poll "b" (simplex spoolPhone) "2025-01-01T00:00:00.000Z" .empty
        talkBeforeEnvelope).2.2.tree.hasFile ["spool", "001.txt"] = false := by
  decide +kernel

/-! ### What the commit does, file by file -/

/-- What a fetch reads after a commit: the files that were there, without those that were moved. -/
theorem Committed.mem_filesRead {l : Location} {files : List (String × File)}
    {w w' : Surroundings} (h : Committed l files w w') {name : String} {f : File} :
    (name, f) ∈ filesRead w' l ↔
      (w.tree.file? (l ++ [name]) = some f ∧ ∀ g, (name, g) ∉ files) ∧ isHidden name = false := by
  rw [Mailroom.mem_filesRead h.sound]
  refine and_congr_left fun _ => ?_
  by_cases hname : ∃ g, (name, g) ∈ files
  · obtain ⟨g, hg⟩ := hname
    rw [Tree.file?_eq_some_iff, h.gone _ hg]
    exact ⟨nofun, fun hf => absurd hg (hf.2 g)⟩
  · rw [not_exists] at hname
    rw [and_iff_left hname, Tree.file?_eq_some_iff, Tree.file?_eq_some_iff]
    by_cases hprocessed : name = processedName
    · subst hprocessed
      by_cases hnil : files = []
      · rw [h.notMade hnil]
      · -- it was no file before, and it is a folder now
        obtain ⟨hfile, hfolder⟩ := h.made hnil
        rw [Tree.hasFolder_iff.1 hfolder]
        refine ⟨nofun, fun hf => ?_⟩
        rw [Tree.hasFile_eq_true_iff.2 ⟨f, Tree.file?_eq_some_iff.2 hf⟩] at hfile
        exact absurd hfile nofun
    · rw [h.node?_entry hprocessed fun x hx heq => hname x.2 (heq ▸ hx)]

/-- A fetch reads the files of the spool that are not hidden, by name. If these are still there when
they are committed, whatever else has changed, the commit succeeds if and only if nothing is in the
way of them. If it succeeds, they and no others have left the spool, so that the next fetch reads
what else is in it, and among what was taken over they have taken their places; what is more than
seven days old has been deleted from there, and nothing else has changed. If it fails, each of them
is where it was or has been taken over, and nothing has been deleted. -/
theorem commit_takes_over_what_was_fetched {s : SimplexSettings} {w : Surroundings} {l : Location}
    (hw : w.tree.Sound) (hl : w.locate s.spool = .ok l) (hfolder : w.tree.hasFolder l = true) :
    ∃ files fetched, (simplex s).fetch w = (.ok fetched, w) ∧ ReadsSpool w l files fetched ∧
      fetched.checkpoint = .files (files.map fun x => PathText.join s.spool x.1) ∧
      ∀ w₁, w₁.tree.Sound → w₁.locate s.spool = .ok l → w₁.tree.hasFolder l = true →
        (∀ x ∈ files, w₁.tree.file? (l ++ [x.1]) = some x.2) →
        ∃ result w₂, (simplex s).commit fetched.checkpoint w₁ = (result, w₂) ∧
          (result = .ok () ↔ NothingInTheWay l files w₁) ∧
          (result = .ok () → Committed l files w₁ w₂ ∧
            ∃ others fetched', (simplex s).fetch w₂ = (.ok fetched', w₂) ∧
              ReadsSpool w₂ l others fetched' ∧
              fetched'.checkpoint = .files (others.map fun x => PathText.join s.spool x.1) ∧
              ∀ name f, (name, f) ∈ others ↔
                (w₁.tree.file? (l ++ [name]) = some f ∧ ∀ g, (name, g) ∉ files) ∧
                  isHidden name = false) ∧
          (result ≠ .ok () → LeftHalfway l files w₁ w₂) := by
  have hreads := readsSpool hw s.spool (l := l)
  refine ⟨_, _, simplex_fetch hl hfolder, hreads, rfl, fun w₁ hw₁ hl₁ hfolder₁ hthere => ?_⟩
  have hcommit := commitOutcome_spoolCommit hw₁ hl₁ hfolder₁ (hreads.ordered.imp ne_of_lt) hthere
  refine ⟨_, _, rfl, hcommit.ok_iff, fun hresult => ?_, hcommit.leftHalfway⟩
  have hcommitted := hcommit.committed hresult
  exact ⟨hcommitted, _, _,
    simplex_fetch (hcommitted.locate_eq hl₁ hfolder₁) (hcommitted.hasFolder_of hfolder₁),
    readsSpool hcommitted.sound s.spool, rfl, fun _ _ => hcommitted.mem_filesRead⟩

/-- A spool on the eleventh day of 1970. Beside two files and a hidden one there is what has been
taken over: an earlier file with one of the names, and one that is too old. -/
def busySpool : Surroundings :=
  { Surroundings.bare with
    clock := ⟨864000, 0⟩
    tree := ⟨[(["spool"], .folder),
      (["spool", ".part"], .file ⟨.bytes [0x2e], 0⟩),
      (["spool", "001.txt"], .file ⟨.bytes [0x61], 800000000⟩),
      (["spool", "003.txt"], .file ⟨.bytes [0x63], 0⟩),
      (["spool", "processed"], .folder),
      (["spool", "processed", "000.txt"], .file ⟨.bytes [0x30], 0⟩),
      (["spool", "processed", "001.txt"], .file ⟨.bytes [0x31], 700000000⟩)]⟩ }

/-- The spool when one more file has come in. -/
def busySpoolLater : Surroundings :=
  { busySpool with tree := busySpool.tree.put ["spool", "002.txt"] (.file ⟨.bytes [0x62], 0⟩) }

/-- The files of the spool that are fetched. -/
def busyFiles : List (String × File) :=
  [("001.txt", ⟨.bytes [0x61], 800000000⟩), ("003.txt", ⟨.bytes [0x63], 0⟩)]

theorem sound_busySpool : busySpool.tree.Sound := by decide

theorem mem_busyFiles {files : List (String × File)} {fetched : Fetched}
    (h : ReadsSpool busySpool ["spool"] files fetched) {x : String × File} :
    x ∈ files ↔ x ∈ busyFiles := by
  obtain ⟨name, f⟩ := x
  rw [h.complete]
  constructor
  · rintro ⟨hfile, hshown⟩
    have hmem : (["spool", name], .file f) ∈ busySpool.tree.entries :=
      (Tree.node?_eq_some_iff sound_busySpool.distinct (List.concat_ne_nil name ["spool"])).1
        (Tree.file?_eq_some_iff.1 hfile)
    simp only [busySpool, List.mem_cons, Prod.mk.injEq, List.cons.injEq, Node.file.injEq,
      List.not_mem_nil, reduceCtorEq, and_true, true_and, and_false, false_and, or_false,
      false_or] at hmem
    rcases hmem with ⟨rfl, -⟩ | ⟨rfl, rfl⟩ | ⟨rfl, rfl⟩
    · exact absurd hshown (by decide)
    · exact List.mem_cons_self
    · exact List.mem_cons_of_mem _ (List.mem_singleton_self _)
  · rw [busyFiles, List.mem_cons, List.mem_singleton]
    rintro (heq | heq)
    · obtain ⟨rfl, rfl⟩ := Prod.mk.inj heq
      exact ⟨rfl, by decide⟩
    · obtain ⟨rfl, rfl⟩ := Prod.mk.inj heq
      exact ⟨rfl, by decide⟩

/-- The file with the name of an earlier one takes its place, and the one that is too old is deleted
as soon as it has been moved. What is hidden or came in later stays where it is. -/
theorem commit_takes_over_what_was_fetched_busySpool :
    busySpool.tree.Sound ∧ busySpool.locate spoolPhone.spool = .ok ["spool"] ∧
      busySpool.tree.hasFolder ["spool"] = true ∧
      ∃ fetched w₂, (simplex spoolPhone).fetch busySpool = (.ok fetched, busySpool) ∧
        (simplex spoolPhone).commit fetched.checkpoint busySpoolLater = (.ok (), w₂) ∧
        w₂.tree.node? ["spool", "001.txt"] = none ∧ w₂.tree.node? ["spool", "003.txt"] = none ∧
        w₂.tree.file? ["spool", "processed", "001.txt"] = some ⟨.bytes [0x61], 800000000⟩ ∧
        w₂.tree.file? ["spool", "processed", "003.txt"] = none ∧
        w₂.tree.file? ["spool", "processed", "000.txt"] = none ∧
        w₂.tree.node? ["spool", "002.txt"] = some (.file ⟨.bytes [0x62], 0⟩) ∧
        w₂.tree.node? ["spool", ".part"] = some (.file ⟨.bytes [0x2e], 0⟩) := by
  have hl : busySpool.locate spoolPhone.spool = .ok ["spool"] := by decide +kernel
  have hl₁ : busySpoolLater.locate spoolPhone.spool = .ok ["spool"] := by decide +kernel
  obtain ⟨files, fetched, hfetch, hreads, -, hcommits⟩ :=
    commit_takes_over_what_was_fetched sound_busySpool hl rfl
  have hall : ∀ {P : String × File → Prop}, (∀ x ∈ files, P x) ↔ ∀ x ∈ busyFiles, P x :=
    forall_congr' fun _ => imp_congr_left (mem_busyFiles hreads)
  have hthere : ∀ x ∈ files, busySpoolLater.tree.file? (["spool"] ++ [x.1]) = some x.2 :=
    hall.2 (List.forall_mem_cons.2 ⟨rfl, List.forall_mem_singleton.2 rfl⟩)
  obtain ⟨result, w₂, hcommit, hway, hok, -⟩ := hcommits busySpoolLater (by decide) hl₁ rfl hthere
  have hfree : NothingInTheWay ["spool"] files busySpoolLater :=
    .inr ⟨rfl, hall.2 (List.forall_mem_cons.2 ⟨rfl, List.forall_mem_singleton.2 rfl⟩)⟩
  obtain rfl : result = .ok () := hway.2 hfree
  have hcommitted := (hok rfl).1
  obtain ⟨hgone₁, hgone₃⟩ := List.forall_mem_cons.1 (hall.1 hcommitted.gone)
  have hkept : ∀ name f, w₂.tree.file? (takenOver ["spool"] name) = some f ↔ _ := hcommitted.kept
  simp only [mem_busyFiles hreads] at hkept
  have hstays : ∀ name, name ≠ processedName → (∀ x ∈ busyFiles, x.1 ≠ name) →
      w₂.tree.node? ["spool", name] = busySpoolLater.tree.node? ["spool", name] :=
    fun name hprocessed hnew => hcommitted.node?_entry hprocessed (hall.2 hnew)
  refine ⟨sound_busySpool, hl, rfl, fetched, w₂, hfetch, hcommit, hgone₁,
    hgone₃ _ (List.mem_singleton_self _), ?_, ?_, ?_, hstays _ (by decide) (by decide),
    hstays _ (by decide) (by decide)⟩
  · exact (hkept "001.txt" _).2 ⟨.inl List.mem_cons_self, by decide⟩
  · refine Option.eq_none_iff_forall_ne_some.2 fun f hf => ?_
    obtain ⟨hf | ⟨hnew, -⟩, hrecent⟩ := (hkept "003.txt" f).1 hf
    · obtain rfl : f = ⟨.bytes [0x63], 0⟩ := by simpa [busyFiles] using hf
      exact absurd hrecent (by decide)
    · exact hnew _ (List.mem_cons_of_mem _ (List.mem_singleton_self _))
  · refine Option.eq_none_iff_forall_ne_some.2 fun f hf => ?_
    obtain ⟨hf | ⟨-, hf⟩, hrecent⟩ := (hkept "000.txt" f).1 hf
    · simp [busyFiles] at hf
    · obtain rfl : ⟨.bytes [0x30], 0⟩ = f := Option.some.inj hf
      exact absurd hrecent (by decide)

end Mailroom
