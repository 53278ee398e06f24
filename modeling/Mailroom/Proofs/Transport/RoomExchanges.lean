/-
What passes between the program and a Matrix room.

A line is posted by one request, which carries it in its body. A page is read by one request for
the position that was kept, and what a fetch gives is made of this page alone.

* `requestTo`, `canRequest` — the request of an exchange, and whether it can be made;
* `journal_exchange`, `exchange_eq_ok_iff` — an exchange makes this request or none;
* `matrixSend_cases` — when there is an address to post to;
* `MatrixSettings.Posts`, `posts_iff` — the requests by which a line is posted;
* `MatrixSettings.ReadsPage`, `matrixFetch_eq_ok_iff` — a fetch that succeeds has read a page;
* `lobby`, `inLobby` — a room that gives some answers.
-/
import Mailroom.Proofs.Text.Encodings
import Mailroom.Proofs.Transport.Indistinct

namespace Mailroom

/-! ### One exchange -/

/-- The request of an exchange. -/
def requestTo (method : String) (u : Url) (token : String) (body : Option Json.Value) : Request :=
  ⟨method, u.withoutUser.render, "Bearer " ++ token, body⟩

/-- Whether the address is one of the web and a header can hold the token. -/
def canRequest (u : Url) (token : String) : Bool :=
  (u.scheme == "http" || u.scheme == "https") && isHeaderSafe token

section

variable {method token : String} {u : Url} {body : Option Json.Value} {w w' : Surroundings}
  {data : List UInt8}

theorem journal_request (w : Surroundings) (r : Request) :
    (w.request r).2.journal = w.journal ++ [.asked r] := by
  unfold Surroundings.request
  dsimp only
  split
  · rfl
  · rfl

theorem exchange_of_not_canRequest (h : canRequest u token = false) :
    ∃ fault, ∀ w, exchange method u token body w = (.error fault, w) := by
  unfold exchange
  by_cases hscheme : u.scheme ≠ "http" ∧ u.scheme ≠ "https"
  · exact ⟨_, fun w => if_pos hscheme⟩
  · -- the scheme is right, so it is for the token that nothing can be asked
    have hweb : (u.scheme == "http" || u.scheme == "https") = true := by
      rw [Bool.or_eq_true, beq_iff_eq, beq_iff_eq]
      by_contra hneither
      exact hscheme (not_or.1 hneither)
    rw [canRequest, hweb, Bool.true_and] at h
    refine ⟨_, fun w => (if_neg hscheme).trans (if_pos ?_)⟩
    rw [h]
    rfl

theorem exchange_of_canRequest (h : canRequest u token = true) :
    exchange method u token body w =
      match w.request (requestTo method u token body) with
      | (.nothing, w) =>
        (.error (.network ("error sending request for url (" ++ u.withoutUser.render ++ ")")), w)
      | (.answer status data, w) =>
        if 200 ≤ status ∧ status < 300 then (.ok data, w)
        else
          (.error (.refused ("HTTP " ++ toString status ++ " " ++ statusReason status ++ ": " ++
            String.ofList (Text.decodeLossy data))), w) := by
  rw [canRequest, Bool.and_eq_true, Bool.or_eq_true, beq_iff_eq, beq_iff_eq] at h
  unfold exchange
  dsimp only
  rw [if_neg, if_neg]
  · rfl
  · rw [h.2]
    exact Bool.false_ne_true
  · rintro ⟨hhttp, hhttps⟩
    exact h.1.elim hhttp hhttps

/-- An exchange makes its request if it can be made, and no other. -/
theorem journal_exchange (method token : String) (u : Url) (body : Option Json.Value)
    (w : Surroundings) : (exchange method u token body w).2.journal =
      w.journal ++ if canRequest u token then [.asked (requestTo method u token body)] else [] := by
  cases h : canRequest u token with
  | false =>
    obtain ⟨fault, hexchange⟩ := exchange_of_not_canRequest h
    rw [hexchange w, if_neg Bool.false_ne_true, List.append_nil]
  | true =>
    rw [exchange_of_canRequest h, if_pos rfl, ← journal_request]
    rcases w.request (requestTo method u token body) with ⟨_ | ⟨status, data⟩, w'⟩
    · rfl
    · dsimp only
      split
      · rfl
      · rfl

theorem exchange_eq_ok_iff : exchange method u token body w = (.ok data, w') ↔
    canRequest u token = true ∧ ∃ status, (200 ≤ status ∧ status < 300) ∧
      w.request (requestTo method u token body) = (.answer status data, w') := by
  cases h : canRequest u token with
  | false =>
    obtain ⟨fault, hexchange⟩ := exchange_of_not_canRequest h
    rw [hexchange w]
    exact ⟨nofun, nofun⟩
  | true =>
    rw [exchange_of_canRequest h]
    rcases w.request (requestTo method u token body) with ⟨_ | ⟨status, answer⟩, w₁⟩
    · exact ⟨nofun, nofun⟩
    · dsimp only
      by_cases hstatus : 200 ≤ status ∧ status < 300
      · rw [if_pos hstatus]
        constructor
        · intro heq
          obtain ⟨hdata, rfl⟩ := Prod.mk.inj heq
          obtain rfl := Except.ok.inj hdata
          exact ⟨rfl, status, hstatus, rfl⟩
        · rintro ⟨-, status', -, heq⟩
          obtain ⟨hanswer, rfl⟩ := Prod.mk.inj heq
          obtain ⟨-, rfl⟩ := Reply.answer.inj hanswer
          rfl
      · rw [if_neg hstatus]
        refine ⟨nofun, ?_⟩
        rintro ⟨-, status', hstatus', heq⟩
        obtain ⟨rfl, -⟩ := Reply.answer.inj (Prod.mk.inj heq).1
        exact absurd hstatus' hstatus

end

namespace MatrixSettings

variable {s : MatrixSettings} {line : String} {r : Request} {w w' : Surroundings} {p : Page}
  {address : Url}

/-! ### Posting -/

/-- A request that is made when a line is posted. -/
def Posts (s : MatrixSettings) (line : String) (r : Request) : Prop :=
  ∃ w, (matrixSend s line w).2.journal = w.journal ++ [.asked r]

theorem matrixSend_eq {c : Credentials} (hc : s.credentials w = .ok c)
    (hu : s.url c ["send", "m.room.message", Ulid.text w.clock.unixMillis w.seed] = .ok address) :
    matrixSend s line w =
      ((exchange "PUT" address c.token (some (lineContent line)) (w.draw 1)).1.map fun _ => (),
        (exchange "PUT" address c.token (some (lineContent line)) (w.draw 1)).2) := by
  unfold matrixSend
  rw [hc]
  dsimp only
  rw [hu]
  dsimp only
  rcases exchange "PUT" address c.token (some (lineContent line)) (w.draw 1) with ⟨_ | _, w'⟩
  · rfl
  · rfl

/-- Either there is an address to post to, or nothing happens but that a number may be drawn. -/
theorem matrixSend_cases (s : MatrixSettings) (line : String) (w : Surroundings) :
    (∃ c address, s.credentials w = .ok c ∧
      s.url c ["send", "m.room.message", Ulid.text w.clock.unixMillis w.seed] = .ok address) ∨
    ∃ fault seed, matrixSend s line w = (.error fault, { w with seed }) := by
  unfold matrixSend
  cases hc : s.credentials w with
  | error fault => exact .inr ⟨fault, w.seed, rfl⟩
  | ok c =>
    cases hu : s.url c ["send", "m.room.message", Ulid.text w.clock.unixMillis w.seed] with
    | error fault =>
      dsimp only
      rw [hu]
      exact .inr ⟨fault, (w.draw 1).seed, rfl⟩
    | ok address => exact .inl ⟨c, address, rfl, hu⟩

/-- A line is posted with its text in the body, to an address that says what is posted. -/
theorem posts_iff : s.Posts line r ↔ ∃ w c address, s.credentials w = .ok c ∧
    s.url c ["send", "m.room.message", Ulid.text w.clock.unixMillis w.seed] = .ok address ∧
      canRequest address c.token = true ∧
        r = requestTo "PUT" address c.token (some (lineContent line)) := by
  constructor
  · rintro ⟨w, hw⟩
    rcases matrixSend_cases s line w with ⟨c, address, hc, hu⟩ | ⟨fault, seed, hsend⟩
    · rw [matrixSend_eq hc hu, journal_exchange] at hw
      have hmade := List.append_cancel_left hw
      split at hmade
      · rename_i hcan
        exact ⟨w, c, address, hc, hu, hcan, (Deed.asked.inj (List.singleton_inj.1 hmade)).symm⟩
      · exact absurd hmade nofun
    · rw [hsend] at hw
      exact absurd hw (by simp)
  · rintro ⟨w, c, address, hc, hu, hcan, rfl⟩
    refine ⟨w, ?_⟩
    rw [matrixSend_eq hc hu, journal_exchange, if_pos hcan]
    rfl

theorem Posts.body_eq (h : s.Posts line r) : r.body = some (lineContent line) := by
  obtain ⟨w, c, address, -, -, -, rfl⟩ := posts_iff.1 h
  rfl

/-! ### Reading -/

/-- A fetch that puts a request to an address gets a page in answer. -/
def ReadsPage (s : MatrixSettings) (w : Surroundings) (address : Url) (r : Request) (p : Page)
    (w' : Surroundings) : Prop :=
  ∃ c data, s.credentials w = .ok c ∧ s.url c ["messages"] = .ok address ∧
    r = requestTo "GET" (pageUrl address (s.cursor w)) c.token none ∧
    exchange "GET" (pageUrl address (s.cursor w)) c.token none w = (.ok data, w') ∧
    readPage data = .ok p

/-- A fetch that succeeds has read a page, and gives what the page gives. -/
theorem matrixFetch_eq_ok_iff {fetched : Fetched} : matrixFetch s w = (.ok fetched, w') ↔
    ∃ address r p, s.ReadsPage w address r p w' ∧ fetched = p.fetched (s.cursor w) := by
  unfold matrixFetch ReadsPage
  dsimp only
  cases hc : s.credentials w with
  | error e => simp
  | ok c =>
    cases hu : s.url c ["messages"] with
    | error e => simp [hu]
    | ok address =>
      rcases hexchange : exchange "GET" (pageUrl address (s.cursor w)) c.token none w with
        ⟨e | data, w₁⟩
      · simp [hu, hexchange]
      · cases hp : readPage data with
        | error e => simp [hu, hexchange, hp, Except.map]
        | ok p => simp [hu, hexchange, hp, Except.map, eq_comm, and_comm]

theorem readsPage_of_answer {c : Credentials} {status : Nat} {data : List UInt8}
    {rest : List Reply} (hc : s.credentials w = .ok c) (hu : s.url c ["messages"] = .ok address)
    (hcan : canRequest address c.token = true) (hreplies : w.replies = .answer status data :: rest)
    (hstatus : 200 ≤ status ∧ status < 300) (hp : readPage data = .ok p) :
    s.ReadsPage w address (requestTo "GET" (pageUrl address (s.cursor w)) c.token none) p
      (w.requested rest (w.journal ++
        [.asked (requestTo "GET" (pageUrl address (s.cursor w)) c.token none)])) := by
  have hpage : ∀ position, canRequest (pageUrl address position) c.token = true := by
    intro position
    cases position with
    | none => exact hcan
    | some token => exact hcan
  refine ⟨c, data, hc, hu, rfl, exchange_eq_ok_iff.2 ⟨hpage _, status, hstatus, ?_⟩, hp⟩
  unfold Surroundings.request
  rw [hreplies]
  rfl

end MatrixSettings

/-! ### A lobby -/

/-- A room, and where the credentials and the position are. -/
def lobby : MatrixSettings := ⟨some "!r:h", "/credentials.json", "/cursor"⟩

/-- The address of something in the lobby. -/
def lobbyUrl (tail : List String) : Url where
  scheme := "http"
  authority := some ⟨"", .domain "h", none⟩
  path := .segments (["_matrix", "client", "v3", "rooms", "!r:h"] ++ tail)
  query := none
  fragment := none

/-- Surroundings in which the lobby gives some answers. -/
def inLobby (answers : List String) : Surroundings :=
  { Surroundings.bare with
    tree := ⟨[(["credentials.json"], .file ⟨.bytes (Text.encodeUtf8
      "\x7b\"homeserver\":\"http://h\",\"accessToken\":\"t\"\x7d"), 0⟩)]⟩
    replies := answers.map fun answer => .answer 200 (Text.encodeUtf8 answer) }

theorem credentials_inLobby (answers : List String) :
    lobby.credentials (inLobby answers) = .ok ⟨"http://h", "t"⟩ := by
  show lobby.credentials (inLobby []) = _
  decide +kernel

theorem url_lobby_messages :
    lobby.url ⟨"http://h", "t"⟩ ["messages"] = .ok (lobbyUrl ["messages"]) := by decide +kernel

end Mailroom
