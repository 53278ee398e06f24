/-
What is posted into a room and read from it again.

Posting and reading have nothing in common but three texts and the line format. Events of the
room may be of any kind; an envelope comes out of those only that show a text which is read as
one, and the check of the marker leaves none of these out. So the events that envelopes were
posted by give these envelopes, in their order, whatever stands between them.

* `RoomEvent.envelope?_eq` — the check of the marker leaves nothing out;
* `RoomEvent.IsOther`, `envelope?_eq_none_iff` — the events that bring no envelope;
* `RoomEvent.Shows`, `text?_of_shows` — the event of a line that was posted;
* `PostedAmong` — envelopes that were posted among other events;
* `poll_of_fetch` — what a poll stores of the envelopes that were fetched;
* `posted_envelopes_are_read_back` — what pages give, and what is stored.
-/
import Mailroom.Proofs.EnvelopeReading
import Mailroom.Proofs.Mailbox.Arrivals
import Mailroom.Proofs.Transport.RoomExchanges

namespace Mailroom

/-! ### Events -/

namespace RoomEvent

variable {event : RoomEvent} {r : Request}

theorem envelope?_eq (event : RoomEvent) :
    event.envelope? = event.text?.bind Envelope.decode? := by
  unfold envelope?
  cases event.text? with
  | none => rfl
  | some text =>
    by_cases hmarked : looksLikeEnvelope text.toList = true
    · rw [Option.filter_some, if_pos hmarked]
    · -- what does not begin with the marker is not read either
      rw [Option.filter_some, if_neg hmarked]
      cases hread : Envelope.decode? text with
      | none => exact hread.symm
      | some e => exact absurd (Envelope.looksLikeEnvelope_of_decodeChars? hread) hmarked

/-- An event that brings no envelope. -/
inductive IsOther (event : RoomEvent) : Prop
  | ofType (h : event.kind ≠ "m.room.message")
  | ofForm (h : (event.content.field? "msgtype").bind Json.Value.text? ≠ some "m.text")
  | noText (h : (event.content.field? "body").bind Json.Value.text? = none)
  | notRead {text : String} (h : (event.content.field? "body").bind Json.Value.text? = some text)
      (hread : Envelope.decode? text = none)

theorem envelope?_eq_none_iff : event.envelope? = none ↔ event.IsOther := by
  rw [envelope?_eq, text?]
  constructor
  · intro h
    by_cases hkind : event.kind = "m.room.message"
    · by_cases hform : (event.content.field? "msgtype").bind Json.Value.text? = some "m.text"
      · rw [if_pos ⟨hkind, hform⟩] at h
        cases htext : (event.content.field? "body").bind Json.Value.text? with
        | none => exact .noText htext
        | some text =>
          rw [htext] at h
          exact .notRead htext h
      · exact .ofForm hform
    · exact .ofType hkind
  · intro h
    cases h with
    | ofType h => rw [if_neg fun hboth => h hboth.1, Option.bind_none]
    | ofForm h => rw [if_neg fun hboth => h hboth.2, Option.bind_none]
    | noText h => rw [h, ite_self, Option.bind_none]
    | notRead h hread =>
      rw [h]
      split
      · exact hread
      · rfl

/-- What a room makes of a request: a message that has the fields of the body. -/
structure Shows (event : RoomEvent) (r : Request) : Prop where
  kind : event.kind = "m.room.message"
  content : ∃ body, r.body = some body ∧ ∀ name, event.content.field? name = body.field? name

theorem text?_of_shows {s : MatrixSettings} {line : String} (hposts : s.Posts line r)
    (hshows : event.Shows r) : event.text? = some line := by
  obtain ⟨body, hbody, hfields⟩ := hshows.content
  obtain rfl := Option.some.inj (hbody.symm.trans hposts.body_eq)
  rw [text?, hfields, hfields, if_pos ⟨hshows.kind, rfl⟩]
  rfl

end RoomEvent

/-! ### Envelopes among events -/

/-- Events of a room, among which are those that some envelopes were posted by, in the order of
the envelopes. -/
inductive PostedAmong : List Envelope → List RoomEvent → Prop
  | none : PostedAmong [] []
  | other {event : RoomEvent} {es : List Envelope} {events : List RoomEvent} (h : event.IsOther)
      (hrest : PostedAmong es events) : PostedAmong es (event :: events)
  | posted {event : RoomEvent} {e : Envelope} {es : List Envelope} {events : List RoomEvent}
      {s : MatrixSettings} {r : Request} (hposts : s.Posts e.encode r) (hshows : event.Shows r)
      (hrest : PostedAmong es events) : PostedAmong (e :: es) (event :: events)

namespace PostedAmong

variable {es fs : List Envelope} {events more : List RoomEvent}

theorem append (h : PostedAmong es events) (hmore : PostedAmong fs more) :
    PostedAmong (es ++ fs) (events ++ more) := by
  induction h with
  | none => exact hmore
  | other h _ ih => exact .other h ih
  | posted hposts hshows _ ih => exact .posted hposts hshows ih

theorem reverse (h : PostedAmong es events) : PostedAmong es.reverse events.reverse := by
  induction h with
  | none => exact .none
  | other h _ ih =>
    rw [List.reverse_cons, ← List.append_nil (List.reverse _)]
    exact ih.append (.other h .none)
  | posted hposts hshows _ ih =>
    rw [List.reverse_cons, List.reverse_cons]
    exact ih.append (.posted hposts hshows .none)

theorem filterMap_eq (h : PostedAmong es events)
    (hes : ∀ e ∈ es, Envelope.decode? e.encode = some e) :
    events.filterMap RoomEvent.envelope? = es := by
  induction h with
  | none => rfl
  | other h _ ih => rw [List.filterMap_cons_none (RoomEvent.envelope?_eq_none_iff.2 h), ih hes]
  | @posted event e es events s r hposts hshows _ ih =>
    obtain ⟨he, hes⟩ := List.forall_mem_cons.1 hes
    have hread : event.envelope? = some e := by
      rw [RoomEvent.envelope?_eq, RoomEvent.text?_of_shows hposts hshows, Option.bind_some, he]
    rw [List.filterMap_cons_some hread, ih hes]

end PostedAmong

/-! ### Storing -/

/-- The messages for an agent among envelopes that come at one time. -/
def messagesFor (agent time : String) (es : List Envelope) : List Message :=
  (es.filter (·.isFor agent)).map (·.arrived time)

theorem ids_messagesFor_sublist (agent time : String) (es : List Envelope) :
    ((messagesFor agent time es).map (·.id)).Sublist (es.map (·.id)) := by
  rw [messagesFor, List.map_map]
  exact List.Sublist.map _ List.filter_sublist

theorem poll_of_fetch {σ : Type} {t : Transport σ} {w w' : σ} {fetched : Fetched}
    (h : t.fetch w = (.ok fetched, w')) (agent time : String) (store : Store) :
    (poll agent t time store w).2.1 = store.takeIn (messagesFor agent time fetched.envelopes) := by
  have hstore := ingestAll_eq agent time fetched.envelopes store
  rw [arrivals, List.filter_map, List.map_map] at hstore
  rw [poll, h]
  dsimp only
  rcases t.commit fetched.checkpoint w' with ⟨_ | _, w''⟩
  · exact hstore
  · exact hstore

/-! ### Pages -/

/-- The events of a room as a page lists them: from a position on forwards, and without a position
backwards. -/
def asListed (position : Option String) (history : List RoomEvent) : List RoomEvent :=
  if position.isNone then history.reverse else history

section

variable {es : List Envelope} {events history : List RoomEvent}

theorem envelopes_forwards (hes : ∀ e ∈ es, Envelope.decode? e.encode = some e)
    (h : PostedAmong es events) (start finish : Option String) :
    Page.envelopes ⟨start, finish, events⟩ false = es := by
  show events.filterMap RoomEvent.envelope? = es
  exact h.filterMap_eq hes

theorem envelopes_backwards (hes : ∀ e ∈ es, Envelope.decode? e.encode = some e)
    (h : PostedAmong es events) (start finish : Option String) :
    Page.envelopes ⟨start, finish, events⟩ true = es.reverse := by
  show (events.filterMap RoomEvent.envelope?).reverse = es.reverse
  rw [h.filterMap_eq hes]

theorem fetched_asListed (hes : ∀ e ∈ es, Envelope.decode? e.encode = some e)
    (h : PostedAmong es history) {p : Page} {position : Option String}
    (hp : p.events = asListed position history) : (p.fetched position).envelopes = es := by
  obtain ⟨start, finish, events⟩ := p
  obtain rfl : events = asListed position history := hp
  show Page.envelopes ⟨start, finish, asListed position history⟩ position.isNone = es
  cases position with
  | none =>
    have hback := envelopes_backwards (fun e he => hes e (List.mem_reverse.1 he)) h.reverse
    rw [List.reverse_reverse] at hback
    exact hback start finish
  | some token => exact envelopes_forwards hes h start finish

/-- A page that lists the events of posted envelopes, whatever else it lists, gives these
envelopes in the order of the events, and if it was read backwards in the reverse order. So a poll
gets them as they were posted, with or without a position, and stores those for its agent that are
new, in this order. -/
theorem posted_envelopes_are_read_back (hes : ∀ e ∈ es, Envelope.decode? e.encode = some e)
    (h : PostedAmong es history) :
    (∀ start finish, Page.envelopes ⟨start, finish, history⟩ false = es ∧
      Page.envelopes ⟨start, finish, history⟩ true = es.reverse) ∧
    ∀ (s : MatrixSettings) w address r p w', s.ReadsPage w address r p w' →
      p.events = asListed (s.cursor w) history →
        (∃ fetched, (matrix s).fetch w = (.ok fetched, w') ∧ fetched.envelopes = es) ∧
        ∀ agent time store, ∃ ms, Adds store ms (poll agent (matrix s) time store w).2.1 ∧
          ms.Sublist (messagesFor agent time es) ∧
          (∀ e ∈ es, e.isFor agent = true →
            e.id ∈ (poll agent (matrix s) time store w).2.1.ids) ∧
          ((es.map (·.id)).Nodup → (∀ e ∈ es, e.id ∉ store.ids) →
            ms = messagesFor agent time es) := by
  refine ⟨fun start finish => ⟨envelopes_forwards hes h start finish,
    envelopes_backwards hes h start finish⟩, ?_⟩
  intro s w address r p w' hreads hlisted
  have hfetch : (matrix s).fetch w = (.ok (p.fetched (s.cursor w)), w') :=
    MatrixSettings.matrixFetch_eq_ok_iff.2 ⟨address, r, p, hreads, rfl⟩
  have hfetched := fetched_asListed hes h hlisted
  refine ⟨⟨_, hfetch, hfetched⟩, fun agent time store => ?_⟩
  have hstore := poll_of_fetch hfetch agent time store
  rw [hfetched] at hstore
  rw [hstore]
  obtain ⟨ms, hadds, hsub⟩ := store.adds_takeIn (messagesFor agent time es)
  refine ⟨ms, hadds, hsub, fun e he hfor => ?_, fun hdistinct hfresh => ?_⟩
  · refine Store.mem_ids_takeIn.2 (.inr ⟨e.arrived time, ?_, rfl⟩)
    exact List.mem_map_of_mem (List.mem_filter.2 ⟨he, hfor⟩)
  · have hids := ids_messagesFor_sublist agent time es
    have hnew : ∀ m ∈ messagesFor agent time es, m.id ∉ store.ids := by
      intro m hm
      obtain ⟨e, he, rfl⟩ := List.mem_map.1 hm
      exact hfresh e (List.mem_filter.1 he).1
    have hall := Store.takeIn_of_distinct (hids.nodup hdistinct) hnew
    have hrows := List.append_cancel_left (hadds.messages.symm.trans (congrArg Store.messages hall))
    exact hsub.eq_of_length (by simpa using congrArg List.length hrows)

end

/-- An envelope that is posted into the lobby. -/
def lobbyEnvelope : Envelope := ⟨"m1", "x", "b", .request, .low, "none", "hi"⟩

/-- The event of the envelope. -/
def lobbyPost : RoomEvent :=
  ⟨"m.room.message", lineContent "AIMAIL:1|m1|x|b|request|low|none|aGk="⟩

/-- The latest page of the lobby: before the envelope there was an event of another type. -/
def lobbyPage : Page := ⟨none, none, [lobbyPost, ⟨"m.room.name", .null⟩]⟩

/-- The answer that holds the page. -/
def lobbyAnswer : String :=
  "\x7b\"chunk\":[\x7b\"type\":\"m.room.message\",\"content\":\x7b\"msgtype\":\"m.text\"," ++
    "\"body\":\"AIMAIL:1|m1|x|b|request|low|none|aGk=\"\x7d\x7d," ++
    "\x7b\"type\":\"m.room.name\"\x7d]\x7d"

set_option maxRecDepth 2000 in
theorem readPage_lobbyAnswer : readPage (Text.encodeUtf8 lobbyAnswer) = .ok lobbyPage := by
  have hread : Json.Value.parse lobbyAnswer = .ok (.object [("chunk", .list
      [.object [("type", .text "m.room.message"), ("content", lobbyPost.content)],
        .object [("type", .text "m.room.name")]])]) := rfl
  rw [readPage, Text.decode?_encodeUtf8]
  dsimp only
  rw [hread]
  rfl

theorem exists_posts_lobby (line : String) : ∃ r, lobby.Posts line r := by
  have hurl : lobby.url ⟨"http://h", "t"⟩ ["send", "m.room.message",
      Ulid.text (inLobby []).clock.unixMillis (inLobby []).seed] =
        .ok (lobbyUrl ["send", "m.room.message", "00000000000000000000000000"]) := by
    decide +kernel
  exact ⟨_, MatrixSettings.posts_iff.2
    ⟨inLobby [], _, _, credentials_inLobby [], hurl, by decide, rfl⟩⟩

theorem postedAmong_lobby : PostedAmong [lobbyEnvelope] [⟨"m.room.name", .null⟩, lobbyPost] := by
  obtain ⟨r, hr⟩ := exists_posts_lobby lobbyEnvelope.encode
  have hline : lobbyEnvelope.encode = "AIMAIL:1|m1|x|b|request|low|none|aGk=" := by decide +kernel
  refine .other (.ofType (by decide)) (.posted hr ⟨rfl, _, hr.body_eq, fun name => ?_⟩ .none)
  rw [hline]
  rfl

/-- The envelope comes out of the latest page of the lobby, and it is stored. -/
theorem posted_envelopes_are_read_back_lobby :
    (∀ e ∈ [lobbyEnvelope], Envelope.decode? e.encode = some e) ∧
      PostedAmong [lobbyEnvelope] [⟨"m.room.name", .null⟩, lobbyPost] ∧
      (∃ fetched w', (matrix lobby).fetch (inLobby [lobbyAnswer]) = (.ok fetched, w') ∧
        fetched.envelopes = [lobbyEnvelope]) ∧
      (poll "b" (matrix lobby) "2025-01-01T00:00:00.000Z" .empty
          (inLobby [lobbyAnswer])).2.1.messages =
        [(lobbyEnvelope.arrived "2025-01-01T00:00:00.000Z").row] := by
  have hes : ∀ e ∈ [lobbyEnvelope], Envelope.decode? e.encode = some e := by decide +kernel
  obtain ⟨-, hpages⟩ := posted_envelopes_are_read_back hes postedAmong_lobby
  have hreads := MatrixSettings.readsPage_of_answer (credentials_inLobby [lobbyAnswer])
    url_lobby_messages (by decide) rfl (by decide) readPage_lobbyAnswer
  have hposition : lobby.cursor (inLobby [lobbyAnswer]) = none := by decide +kernel
  have hlisted : lobbyPage.events = asListed (lobby.cursor (inLobby [lobbyAnswer]))
      [⟨"m.room.name", .null⟩, lobbyPost] := by
    rw [hposition]
    rfl
  obtain ⟨⟨fetched, hfetch, henvelopes⟩, hstored⟩ := hpages _ _ _ _ _ _ hreads hlisted
  obtain ⟨ms, hadds, -, -, hall⟩ := hstored "b" "2025-01-01T00:00:00.000Z" .empty
  refine ⟨hes, postedAmong_lobby, ⟨fetched, _, hfetch, henvelopes⟩, ?_⟩
  rw [hadds.messages, hall (by decide) (by decide)]
  rfl

end Mailroom
