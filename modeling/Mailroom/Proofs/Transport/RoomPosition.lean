/-
Where a room is read on from.

A poll reads a page and then writes down a token of the room: the start of the first page that has
one, and after that the end of every page that has one. The token is written as it is, but when it
is read again the blanks at its ends are taken off, and a token of blanks counts as none. So each
poll asks for the events after the token that was written down if and only if no token begins or
ends with a blank or is empty.

* `readText_writeText` — a text that was written is read back;
* `Request.AsksFrom` — what a request for a page asks for, as the pairs of its query;
* `asksFrom_of_readsPage`, `AsksFrom.unique` — a fetch asks from the kept position and no other;
* `RoomPoll`, `MatrixSettings.Polls`, `cursor_of_polls` — a poll that succeeds;
* `MatrixSettings.PollsInTurn` — polls in turn, with anything else between them;
* `resumed`, `lastToken` — the position after some pages, as it is read and as it was written;
* `lastToken_concat`, `resumed_eq_lastToken` — both move with each page, and agree on plain tokens;
* `polls_resume_where_they_stopped` — what each poll asks for;
* `blank_lost_from_token` — a token that ends with a blank.
-/
import Mailroom.Proofs.Files.Trees
import Mailroom.Proofs.Transport.RoomExchanges
import Mailroom.Proofs.Url.QueryPairs

namespace Mailroom

/-! ### The file of the position -/

theorem readText_writeText {w w' : Surroundings} {path text : String}
    (h : w.writeText path text = .ok w') : w'.readText path = .ok text := by
  obtain ⟨l, hl, h⟩ := bind_eq_ok.1 h
  obtain ⟨tree, htree, h⟩ := bind_eq_ok.1 h
  obtain rfl := Except.ok.inj h
  obtain ⟨hlocate, hnode⟩ := Tree.node?_locate_write hl htree
  refine bind_eq_ok.2 ⟨l, hlocate, ?_⟩
  rw [Tree.readText, Tree.read, hnode]
  dsimp only
  rw [Text.decode?_encodeUtf8]

namespace Text

/-- A text with blanks at neither end, and not empty. -/
def IsPlain (s : String) : Prop := trimmed s = s ∧ s ≠ ""

theorem nonBlank?_eq_some_iff {s : Option String} {t : String} :
    nonBlank? s = some t ↔ s.map trimmed = some t ∧ t ≠ "" := by
  rw [nonBlank?, Option.filter_eq_some_iff]
  simp

theorem isPlain_of_nonBlank? {s : Option String} {t : String} (h : nonBlank? s = some t) :
    IsPlain t := by
  obtain ⟨hmap, hne⟩ := nonBlank?_eq_some_iff.1 h
  obtain ⟨u, -, rfl⟩ := Option.map_eq_some_iff.1 hmap
  refine ⟨?_, hne⟩
  rw [trimmed, trimmed, String.toList_ofList, trim_trim]

end Text

namespace MatrixSettings

variable {s : MatrixSettings} {v w : Surroundings} {token : String}

theorem cursor_of_commit (h : (matrix s).commit (.cursor token) v = (.ok (), w)) :
    s.cursor w = Text.nonBlank? (some token) := by
  have h : matrixCommit s (.cursor token) v = (.ok (), w) := h
  rw [matrixCommit] at h
  split at h
  · exact absurd (Prod.mk.inj h).1 nofun
  · split at h
    · exact absurd (Prod.mk.inj h).1 nofun
    · rename_i hwrite
      obtain ⟨-, rfl⟩ := Prod.mk.inj h
      rw [cursor, readText_writeText hwrite]

/-- Keeping a position changes nothing but files. -/
theorem exists_tree_commit (s : MatrixSettings) (c : Checkpoint) (w : Surroundings) :
    ∃ tree, ((matrix s).commit c w).2 = { w with tree } := by
  have hfolders : ∀ {path : String} {v : Surroundings}, w.makeFolders path = .ok v →
      ∃ tree, v = { w with tree } := by
    intro path v h
    obtain ⟨tree, -, h⟩ := bind_eq_ok.1 h
    exact ⟨tree, (Except.ok.inj h).symm⟩
  show ∃ tree, (matrixCommit s c w).2 = { w with tree }
  unfold matrixCommit
  split
  · split
    · exact ⟨w.tree, rfl⟩
    · rename_i v hparent
      obtain ⟨tree, rfl⟩ : ∃ tree, v = { w with tree } := by
        unfold Surroundings.makeParent at hparent
        split at hparent
        · exact ⟨w.tree, (Except.ok.inj hparent).symm⟩
        · exact hfolders hparent
      split
      · exact ⟨tree, rfl⟩
      · rename_i hwrite
        obtain ⟨l, -, hwrite⟩ := bind_eq_ok.1 hwrite
        obtain ⟨tree', -, hwrite⟩ := bind_eq_ok.1 hwrite
        obtain rfl := Except.ok.inj hwrite
        exact ⟨tree', rfl⟩
  · exact ⟨w.tree, rfl⟩

theorem cursor_of_readText (h : v.readText s.cursorFile = w.readText s.cursorFile) :
    s.cursor v = s.cursor w := by
  rw [cursor, cursor, h]

theorem cursor_of_not_isThere (h : w.isThere s.cursorFile = false) : s.cursor w = none := by
  rw [Surroundings.isThere, Option.isSome_eq_false_iff, Option.isNone_iff_eq_none,
    Surroundings.node?] at h
  obtain ⟨fault, hread⟩ : ∃ fault, w.readText s.cursorFile = .error fault := by
    rw [Surroundings.readText]
    cases hl : w.locate s.cursorFile with
    | error fault => exact ⟨fault, rfl⟩
    | ok l =>
      rw [hl] at h
      have hnode : w.tree.node? l = none := h
      refine ⟨.notFound, ?_⟩
      show w.tree.readText l = _
      rw [Tree.readText, Tree.read, hnode]
  rw [cursor, hread]

end MatrixSettings

/-! ### What is asked for -/

/-- The pairs that ask for the events after a position, or for the latest ones. -/
def positionPairs : Option String → List (String × String)
  | some token => [("dir", "f"), ("from", token), ("limit", "100")]
  | none => [("dir", "b"), ("limit", "50")]

theorem queryPairs_pageUrl (u : Url) (position : Option String) :
    (pageUrl u position).queryPairs = u.queryPairs ++ positionPairs position := by
  cases position with
  | none =>
    rw [pageUrl, Url.queryPairs_appendPair, Url.queryPairs_appendPair, List.append_assoc]
    rfl
  | some token =>
    rw [pageUrl, Url.queryPairs_appendPair, Url.queryPairs_appendPair, Url.queryPairs_appendPair,
      List.append_assoc, List.append_assoc]
    rfl

theorem exists_query_pageUrl (u : Url) (position : Option String) :
    ∃ q, pageUrl u position = { u with query := some q } := by
  cases position with
  | none => exact ⟨_, rfl⟩
  | some token => exact ⟨_, rfl⟩

/-- A request asks an address for the events after a position: the server finds the pairs for the
position behind those of the address. -/
structure Request.AsksFrom (r : Request) (address : Url) (position : Option String) : Prop where
  method : r.method = "GET"
  url : ∃ q, r.url = ({ address with query := some q } : Url).withoutUser.render ∧
    Url.pairsOf q.toList = address.queryPairs ++ positionPairs position

theorem positionPairs_injective : Function.Injective positionPairs := by
  rintro (_ | token) (_ | token') h
  · rfl
  · exact absurd (congrArg List.length h) (by simp [positionPairs])
  · exact absurd (congrArg List.length h) (by simp [positionPairs])
  · simpa [positionPairs] using h

theorem Request.AsksFrom.unique {r : Request} {address : Url} {position position' : Option String}
    (h : r.AsksFrom address position) (h' : r.AsksFrom address position') :
    position = position' := by
  obtain ⟨q, hq, hpairs⟩ := h.url
  obtain ⟨q', hq', hpairs'⟩ := h'.url
  obtain rfl := Url.query_eq_of_render_eq (hq.symm.trans hq')
  exact positionPairs_injective (List.append_cancel_left (hpairs.symm.trans hpairs'))

theorem asksFrom_of_readsPage {s : MatrixSettings} {v w : Surroundings} {address : Url}
    {r : Request} {p : Page} (h : s.ReadsPage v address r p w) :
    r.AsksFrom address (s.cursor v) := by
  obtain ⟨c, data, -, -, rfl, -, -⟩ := h
  obtain ⟨q, hq⟩ := exists_query_pageUrl address (s.cursor v)
  refine ⟨rfl, q, by rw [← hq]; rfl, ?_⟩
  rw [← queryPairs_pageUrl, hq]
  rfl

/-! ### Polls -/

/-- A poll: to which address which request was made, and which page came. -/
structure RoomPoll where
  address : Url
  request : Request
  page : Page

namespace MatrixSettings

variable {s : MatrixSettings} {v w : Surroundings} {x : RoomPoll}

/-- A poll that succeeds: a fetch reads a page (`matrixFetch_eq_ok_iff`), and its position is
kept. -/
def Polls (s : MatrixSettings) (v : Surroundings) (x : RoomPoll) (w : Surroundings) : Prop :=
  ∃ u, s.ReadsPage v x.address x.request x.page u ∧
    (matrix s).commit (x.page.fetched (s.cursor v)).checkpoint u = (.ok (), w)

theorem cursor_of_readsPage {address : Url} {r : Request} {p : Page}
    (h : s.ReadsPage v address r p w) : s.cursor w = s.cursor v := by
  obtain ⟨c, data, -, -, -, hexchange, -⟩ := h
  obtain ⟨replies, journal, hw⟩ :=
    surroundings_exchange "GET" (pageUrl address (s.cursor v)) c.token none v
  rw [hexchange] at hw
  obtain rfl : w = v.requested replies journal := hw
  rfl

/-- The position after a poll is what is read of the token that was written down. -/
theorem cursor_of_polls (h : s.Polls v x w) :
    s.cursor w = Text.nonBlank? (x.page.nextCursor (s.cursor v)) := by
  obtain ⟨u, hreads, hcommit⟩ := h
  cases hnext : x.page.nextCursor (s.cursor v) with
  | some token =>
    rw [Page.fetched, hnext] at hcommit
    exact cursor_of_commit hcommit
  | none =>
    rw [Page.fetched, hnext] at hcommit
    obtain ⟨-, rfl⟩ := Prod.mk.inj hcommit
    -- there was no position before either
    have hnone : s.cursor v = none := (Option.or_eq_none_iff.1 hnext).2
    rw [cursor_of_readsPage hreads, hnone]
    rfl

/-- Polls in turn, the first of them without a file of the position. Before each of them anything
may have happened but to this file. -/
inductive PollsInTurn (s : MatrixSettings) : List RoomPoll → Surroundings → Prop
  | start {w : Surroundings} (h : w.isThere s.cursorFile = false) : PollsInTurn s [] w
  | poll {polls : List RoomPoll} {u v w : Surroundings} {x : RoomPoll}
      (hrun : PollsInTurn s polls u)
      (hbetween : v.readText s.cursorFile = u.readText s.cursorFile) (h : s.Polls v x w) :
      PollsInTurn s (polls ++ [x]) w

end MatrixSettings

/-- The position after some pages, as it is read: after each page the text that was written down
loses the blanks at its ends. -/
def resumed (pages : List Page) : Option String :=
  pages.foldl (fun position p => Text.nonBlank? (p.nextCursor position)) none

/-- The latest token among some pages: the last end behind the first page with a start, or else
this start. -/
def lastToken (pages : List Page) : Option String :=
  match pages.dropWhile (·.start.isNone) with
  | [] => none
  | first :: later => (later.filterMap (·.finish)).getLast?.or first.start

theorem resumed_concat (pages : List Page) (p : Page) :
    resumed (pages ++ [p]) = Text.nonBlank? (p.nextCursor (resumed pages)) := by
  rw [resumed, List.foldl_concat]
  rfl

/-- The token that is written down after a page is the latest one. -/
theorem lastToken_concat (pages : List Page) (p : Page) :
    lastToken (pages ++ [p]) = p.nextCursor (lastToken pages) := by
  rw [lastToken, lastToken, List.dropWhile_append]
  cases hpages : pages.dropWhile (·.start.isNone) with
  | nil =>
    -- no page has had a start so far
    cases hstart : p.start with
    | none => simp [Page.nextCursor, hstart]
    | some token => simp [Page.nextCursor, hstart]
  | cons first later =>
    have hfirst : first.start.isNone = false := by
      have hne : pages.dropWhile (·.start.isNone) ≠ [] := by simp [hpages]
      have hnot := List.head_dropWhile_not (fun p : Page => p.start.isNone) hne
      simpa [hpages] using hnot
    have hsome : ((later.filterMap (·.finish)).getLast?.or first.start).isSome = true := by
      rw [Option.isSome_or, Bool.or_eq_true]
      exact .inr (by simpa using hfirst)
    rw [Page.nextCursor, hsome]
    cases hfinish : p.finish with
    | none => simp [hfinish]
    | some token => simp [hfinish]

/-- There is no token as long as no page has a start. -/
theorem lastToken_eq_none_iff {pages : List Page} :
    lastToken pages = none ↔ ∀ p ∈ pages, p.start = none := by
  induction pages using List.reverseRecOn with
  | nil => exact ⟨fun _ => nofun, fun _ => rfl⟩
  | append_singleton pages p ih =>
    rw [lastToken_concat, Page.nextCursor, Option.or_eq_none_iff, ih]
    constructor
    · rintro ⟨hp, hpages⟩
      rw [ih.2 hpages] at hp
      exact List.forall_mem_append.2 ⟨hpages, by simpa using hp⟩
    · intro h
      obtain ⟨hpages, hp⟩ := List.forall_mem_append.1 h
      rw [ih.2 hpages]
      exact ⟨by simpa using hp, hpages⟩

/-- A position that is none, or a plain text. -/
def IsPlainPosition (position : Option String) : Prop := ∀ token ∈ position, Text.IsPlain token

theorem nonBlank?_eq_self_iff {position : Option String} :
    Text.nonBlank? position = position ↔ IsPlainPosition position := by
  cases position with
  | none => exact ⟨fun _ => nofun, fun _ => rfl⟩
  | some token =>
    rw [Text.nonBlank?_eq_some_iff, Option.map_some, Option.some.injEq]
    simp only [IsPlainPosition, Option.mem_some_iff, forall_eq', Text.IsPlain]

theorem isPlainPosition_resumed (pages : List Page) : IsPlainPosition (resumed pages) := by
  induction pages using List.reverseRecOn with
  | nil => exact nofun
  | append_singleton pages p _ =>
    rw [resumed_concat]
    exact fun token htoken => Text.isPlain_of_nonBlank? htoken

/-- As long as all tokens are plain, what is read is what was written. -/
theorem resumed_eq_lastToken {pages : List Page}
    (h : ∀ before, before <+: pages → IsPlainPosition (lastToken before)) :
    resumed pages = lastToken pages := by
  induction pages using List.reverseRecOn with
  | nil => rfl
  | append_singleton pages p ih =>
    have hbefore := ih fun before hinitial => h before (hinitial.trans (List.prefix_append _ _))
    rw [resumed_concat, hbefore, ← lastToken_concat, nonBlank?_eq_self_iff]
    exact h _ List.prefix_rfl

namespace MatrixSettings.PollsInTurn

variable {s : MatrixSettings} {polls : List RoomPoll} {w : Surroundings}

theorem cursor_eq (h : s.PollsInTurn polls w) : s.cursor w = resumed (polls.map (·.page)) := by
  induction h with
  | start h => exact cursor_of_not_isThere h
  | poll hrun hbetween h ih =>
    rw [cursor_of_polls h, cursor_of_readText hbetween, ih, List.map_append, List.map_singleton,
      resumed_concat]

/-- Every poll asks for what comes after the position that is read of the pages before it. -/
theorem asksFrom_resumed (h : s.PollsInTurn polls w) {before after : List RoomPoll} {x : RoomPoll}
    (hsplit : polls = before ++ x :: after) :
    x.request.AsksFrom x.address (resumed (before.map (·.page))) := by
  induction h generalizing after with
  | start h => exact absurd hsplit (by simp)
  | @poll polls u v w y hrun hbetween h ih =>
    rcases List.eq_nil_or_concat after with rfl | ⟨after, last, rfl⟩
    · obtain ⟨rfl, hlast⟩ := List.append_inj' hsplit rfl
      obtain rfl := List.singleton_inj.1 hlast
      obtain ⟨_, hreads, -⟩ := h
      rw [← hrun.cursor_eq, ← cursor_of_readText hbetween]
      exact asksFrom_of_readsPage hreads
    · rw [List.concat_eq_append, ← List.cons_append, ← List.append_assoc] at hsplit
      exact ih (List.append_inj' hsplit rfl).1

end MatrixSettings.PollsInTurn

/-- Every poll asks for the events after the position that was kept, and for the latest ones if
there is none. For all of the polls this is the latest token that the pages before named, if and
only if each of these tokens is plain: one that begins or ends with a blank is not asked for as it
was named, and after one of blanks a poll asks for the latest events again. There is a latest token
as soon as a page has had a start. -/
theorem polls_resume_where_they_stopped {s : MatrixSettings} {polls : List RoomPoll}
    {w : Surroundings} (h : s.PollsInTurn polls w) :
    (∀ before x after, polls = before ++ x :: after →
      x.request.AsksFrom x.address (resumed (before.map (·.page)))) ∧
    ((∀ before x after, polls = before ++ x :: after →
        x.request.AsksFrom x.address (lastToken (before.map (·.page)))) ↔
      ∀ before x after, polls = before ++ x :: after →
        IsPlainPosition (lastToken (before.map (·.page)))) ∧
    ∀ pages, lastToken pages = none ↔ ∀ p ∈ pages, p.start = none := by
  have hasks : ∀ before x after, polls = before ++ x :: after →
      x.request.AsksFrom x.address (resumed (before.map (·.page))) :=
    fun before x after hsplit => h.asksFrom_resumed hsplit
  refine ⟨hasks, ⟨fun hlast before x after hsplit => ?_,
    fun hplain before x after hsplit => ?_⟩, fun pages => lastToken_eq_none_iff⟩
  · rw [(hlast before x after hsplit).unique (hasks before x after hsplit)]
    exact isPlainPosition_resumed _
  · rw [← resumed_eq_lastToken]
    · exact hasks before x after hsplit
    · -- every shorter run of pages stands before a poll as well
      intro pages hinitial
      obtain ⟨earlier, ⟨more, rfl⟩, rfl⟩ := List.prefix_map_iff.1 hinitial
      cases more with
      | nil => exact hplain earlier x after (by simpa using hsplit)
      | cons y more => exact hplain earlier y (more ++ x :: after) (by simpa using hsplit)

/-! ### A token that ends with a blank -/

/-- The lobby begins with a token that ends with a blank, and then names no other one. -/
def blankLobby : Surroundings := inLobby ["\x7b\"start\":\"s1 \"\x7d", "\x7b\x7d"]

/-- The first poll of the lobby. -/
def firstInLobby : RoomPoll where
  address := lobbyUrl ["messages"]
  request := requestTo "GET" (pageUrl (lobbyUrl ["messages"]) none) "t" none
  page := ⟨some "s1 ", none, []⟩

/-- The second poll of the lobby. -/
def secondInLobby : RoomPoll where
  address := lobbyUrl ["messages"]
  request := requestTo "GET" (pageUrl (lobbyUrl ["messages"]) (some "s1")) "t" none
  page := ⟨none, none, []⟩

/-- The lobby after the request of the first poll, and after its token has been kept. -/
def blankLobbyAsked : Surroundings :=
  blankLobby.requested [.answer 200 (Text.encodeUtf8 "\x7b\x7d")] [.asked firstInLobby.request]

/-- The lobby after the first poll. -/
def blankLobbyKept : Surroundings := ((matrix lobby).commit (.cursor "s1 ") blankLobbyAsked).2

/-- The lobby after the request of the second poll. -/
def blankLobbyAskedAgain : Surroundings :=
  blankLobbyKept.requested [] (blankLobbyKept.journal ++ [.asked secondInLobby.request])

theorem first_in_lobby : lobby.Polls blankLobby firstInLobby blankLobbyKept := by
  have hcursor : lobby.cursor blankLobby = none := by decide +kernel
  have hpage : readPage (Text.encodeUtf8 "\x7b\"start\":\"s1 \"\x7d") =
      .ok firstInLobby.page := rfl
  have hreads := MatrixSettings.readsPage_of_answer (w := blankLobby) (credentials_inLobby _)
    url_lobby_messages (by decide) rfl (by decide) hpage
  have hcommit : ((matrix lobby).commit (.cursor "s1 ") blankLobbyAsked).1 = .ok () := by
    decide +kernel
  rw [hcursor] at hreads
  refine ⟨blankLobbyAsked, hreads, ?_⟩
  rw [hcursor]
  exact Prod.ext hcommit rfl

theorem second_in_lobby : ∃ w, lobby.Polls blankLobbyKept secondInLobby w := by
  have hcursor : lobby.cursor blankLobbyKept = some "s1" := by decide +kernel
  have hpage : readPage (Text.encodeUtf8 "\x7b\x7d") = .ok secondInLobby.page := rfl
  have hcredentials : lobby.credentials blankLobbyKept = .ok ⟨"http://h", "t"⟩ := by
    decide +kernel
  obtain ⟨tree, htree⟩ :=
    MatrixSettings.exists_tree_commit lobby (.cursor "s1 ") blankLobbyAsked
  have hreplies : blankLobbyKept.replies = [.answer 200 (Text.encodeUtf8 "\x7b\x7d")] := by
    rw [blankLobbyKept, htree]
    rfl
  have hreads := MatrixSettings.readsPage_of_answer hcredentials url_lobby_messages (by decide)
    hreplies (by decide) hpage
  have hcommit : ((matrix lobby).commit (.cursor "s1") blankLobbyAskedAgain).1 = .ok () := by
    decide +kernel
  rw [hcursor] at hreads
  refine ⟨((matrix lobby).commit (.cursor "s1") blankLobbyAskedAgain).2, blankLobbyAskedAgain,
    hreads, ?_⟩
  rw [hcursor]
  exact Prod.ext hcommit rfl

theorem exists_pollsInTurn_lobby : ∃ w, lobby.PollsInTurn [firstInLobby, secondInLobby] w := by
  have hstart : blankLobby.isThere lobby.cursorFile = false := by decide +kernel
  obtain ⟨w, hsecond⟩ := second_in_lobby
  exact ⟨w, .poll (.poll (.start hstart) rfl first_in_lobby) rfl hsecond⟩

/-- The second poll asks for what comes after the token without its blank. -/
theorem polls_resume_where_they_stopped_lobby :
    ∃ w, lobby.PollsInTurn [firstInLobby, secondInLobby] w ∧
      secondInLobby.request.AsksFrom secondInLobby.address (some "s1") := by
  obtain ⟨w, hrun⟩ := exists_pollsInTurn_lobby
  have hasks := (polls_resume_where_they_stopped hrun).1 [firstInLobby] secondInLobby [] rfl
  have hresumed : resumed [firstInLobby.page] = some "s1" := by decide +kernel
  rw [List.map_singleton, hresumed] at hasks
  exact ⟨w, hrun, hasks⟩

/-- So it does not ask for what comes after the token that the lobby named. -/
theorem blank_lost_from_token :
    (∃ w, lobby.PollsInTurn [firstInLobby, secondInLobby] w) ∧
      lastToken [firstInLobby.page] = some "s1 " ∧
      ¬ secondInLobby.request.AsksFrom secondInLobby.address (some "s1 ") := by
  refine ⟨exists_pollsInTurn_lobby, rfl, fun hasks => ?_⟩
  obtain ⟨w, _, hreads, -⟩ := second_in_lobby
  have hposition := hasks.unique (asksFrom_of_readsPage hreads)
  have hcursor : lobby.cursor blankLobbyKept = some "s1" := by decide +kernel
  rw [hcursor] at hposition
  exact absurd hposition (by decide)

end Mailroom
