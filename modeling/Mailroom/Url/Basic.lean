/-
URLs and their written form.

A URL has a scheme, an authority if it names a host, a path, a query and a fragment.
All of it is kept in the encoded form in which it is written. The path is a list of
segments; only a URL without a host may have a path that is one text instead, and
nothing can be appended to such a path.

* `Url.render` — the written form;
* `Url.push` — one more path segment, in which nothing can be taken for a delimiter;
* `Url.appendPair` — one more pair at the end of the query.

A segment `.` or `..` is left out when it is pushed. Tabs and line breaks inside a
segment are dropped; what is left may again be `.` or `..`, and then counts as a step
in the path.
-/
import Mailroom.Text.Percent
import Mailroom.Url.Host

namespace Mailroom.Url

/-- A host with what may stand before and after it. -/
structure Authority where
  userinfo : String
  host : Host
  port : Option Nat
  deriving DecidableEq, Repr

/-- The path of a URL. -/
inductive Path where
  /-- the texts between the slashes, after the first slash -/
  | segments (parts : List String)
  /-- one text that does not begin with a slash -/
  | whole (text : String)
  deriving DecidableEq, Repr

end Url

/-- A uniform resource locator. -/
structure Url where
  scheme : String
  authority : Option Url.Authority
  path : Url.Path
  query : Option String
  fragment : Option String
  deriving DecidableEq, Repr

namespace Url

/-- The port that a scheme uses if none is given. -/
def defaultPort? (scheme : String) : Option Nat :=
  if scheme = "http" ∨ scheme = "ws" then some 80
  else if scheme = "https" ∨ scheme = "wss" then some 443
  else if scheme = "ftp" then some 21
  else none

/-- Whether a scheme has special rules for its host and path. -/
def isSpecial (scheme : String) : Bool := (defaultPort? scheme).isSome || scheme == "file"

/-! ### The characters that stand for themselves -/

/-- In a fragment. -/
def fragmentKeep (c : Char) : Bool :=
  !isControl c && !(" \"<>`".toList.contains c)

/-- In a path. -/
def pathKeep (c : Char) : Bool :=
  fragmentKeep c && !(['#', '?', Char.ofNat 123, Char.ofNat 125].contains c)

/-- In a segment that must not be cut. -/
def segmentKeep (special : Bool) (c : Char) : Bool :=
  pathKeep c && c != '/' && c != '%' && !(special && c == '\\')

/-- In the name and password of a user. -/
def userKeep (c : Char) : Bool := pathKeep c && !("/:;=@[\\]^|".toList.contains c)

/-- In a query. -/
def queryKeep (special : Bool) (c : Char) : Bool :=
  !isControl c && !(" \"#<>".toList.contains c) && !(special && c == '\'')

/-! ### Writing -/

/-- The written form of an authority. -/
def Authority.render (a : Authority) : String :=
  "//" ++ a.userinfo ++ (if a.userinfo.isEmpty then "" else "@") ++ a.host.render ++
    match a.port with
    | some p => ":" ++ toString p
    | none => ""

/-- The written form of a path. -/
def Path.render : Path → String
  | segments [] => ""
  | segments parts => "/" ++ "/".intercalate parts
  | whole text => text

/-- What stands between the scheme and the path. Without a host, a path that begins with
two slashes is kept from looking like one by a step to itself. -/
def front (u : Url) : String :=
  match u.authority, u.path with
  | some a, _ => a.render
  | none, .segments ("" :: _ :: _) => "/."
  | none, _ => ""

/-- The written form of a URL. -/
def render (u : Url) : String :=
  u.scheme ++ ":" ++ u.front ++ u.path.render ++
    (match u.query with
      | some q => "?" ++ q
      | none => "") ++
    match u.fragment with
    | some f => "#" ++ f
    | none => ""

/-! ### Adding to a URL -/

/-- The characters that are dropped wherever they stand. -/
def isDropped (c : Char) : Bool := c == '\t' || c == '\n' || c == '\r'

/-- Whether a segment is a drive: a letter and a colon, or a bar in its place. -/
def isDrive (segment : String) : Bool :=
  match segment.toList with
  | [c, d] => c.isAlpha && (d == ':' || d == '|')
  | _ => false

/-- One step up from the segments in `done`, the last one first. A drive is never left. -/
def climb (done : List String) : List String :=
  match done with
  | s :: rest => if isDrive s then s :: rest else rest
  | [] => []

/-- A segment as it stands after those in `done`: at the front of the path of a file, a
drive is written with a colon. -/
def placed (scheme : String) (done : List String) (segment : String) : String :=
  if scheme = "file" ∧ done = [] ∧ isDrive segment then String.ofList [segment.front, ':']
  else segment

/-- A list of segments in which the empty ones at the front are left out, as in the
paths of files. -/
def withoutEmptyFront (parts : List String) : List String :=
  match parts.dropWhile String.isEmpty with
  | [] => [""]
  | rest => rest

/-- The segments with one more. A path that is nothing but its first slash has room
for it. -/
def pushSegment (scheme : String) (parts : List String) (segment : String) : List String :=
  if segment = "." ∨ segment = ".." then parts
  else
    let base := if parts = [""] then [] else parts
    let written := Text.Percent.encode (segmentKeep (isSpecial scheme))
      (segment.toList.filter (!isDropped ·))
    let added :=
      if written = ['.'] then base ++ [""]
      else if written = ['.', '.'] then (climb base.reverse).reverse ++ [""]
      else base ++ [placed scheme base (String.ofList written)]
    if scheme = "file" then withoutEmptyFront added else added

/-- A URL with more segments at the end of its path; an empty segment at the end is
replaced. `none` if the path has no segments. -/
def push (u : Url) (more : List String) : Option Url :=
  match u.path with
  | .whole _ => none
  | .segments parts =>
    let base := if 1 < parts.length ∧ parts.getLast? = some "" then parts.dropLast else parts
    some { u with path := .segments (more.foldl (pushSegment u.scheme) base) }

/-- A URL without the name and password of a user. -/
def withoutUser (u : Url) : Url :=
  { u with authority := u.authority.map fun a => ⟨"", a.host, a.port⟩ }

/-- A URL with one more pair at the end of its query. -/
def appendPair (u : Url) (name value : String) : Url :=
  let pair := String.ofList (Text.Percent.formEncode name.toList ++ '=' ::
    Text.Percent.formEncode value.toList)
  let query := match u.query with
    | none => pair
    | some "" => pair
    | some q => q ++ "&" ++ pair
  { u with query := some query }

end Url

end Mailroom
