/-
Reading URLs.

Control characters and spaces at the ends of a text are ignored, tabs and line breaks
everywhere. The scheme comes first; there is nothing to complete a text without one.

Under special rules a backslash counts as a slash, any number of slashes leads to the
host, and the path always has a segment. Steps `.` and `..` in the path are carried
out, also where their dots are percent-encoded; no step leads out of a drive.

* `Url.parse` — the URL that a text denotes.
-/
import Mailroom.Url.Basic

namespace Mailroom.Url

/-- The scheme at the front of a text, in small letters, and the text after its colon. -/
def scheme? (cs : List Char) : Option (String × List Char) :=
  let name := cs.takeWhile fun c => c.isAlphanum || c == '+' || c == '-' || c == '.'
  let rest := cs.drop name.length
  if (name.head?.map Char.isAlpha).getD false && rest.head? == some ':' then
    some (String.ofList (name.map Char.toLower), rest.tail)
  else none

/-- Whether a character counts as a slash. -/
def isSlash (special : Bool) (c : Char) : Bool := c == '/' || (special && c == '\\')

/-- Whether a character ends the authority. -/
def endsAuthority (special : Bool) (c : Char) : Bool := isSlash special c || c == '?' || c == '#'

/-! ### Authorities -/

/-- The text before and after the last at sign. -/
def cutLastAt? (cs : List Char) : Option (List Char × List Char) :=
  let after := (cs.reverse.takeWhile (· != '@')).reverse
  if after.length = cs.length then none else some (cs.take (cs.length - after.length - 1), after)

/-- The written form of a user's name and password. -/
def userinfoText (cs : List Char) : String :=
  let name := cs.takeWhile (· != ':')
  let password := cs.drop (name.length + 1)
  let written := Text.Percent.encode userKeep
  String.ofList (if password.isEmpty then written name else written name ++ ':' :: written password)

/-- The length of the host at the front: up to a colon that does not stand in brackets. -/
def hostLength : Bool → List Char → Nat
  | _, [] => 0
  | inside, c :: rest =>
    if c = ':' ∧ ¬ inside then 0
    else hostLength (if c = '[' then true else if c = ']' then false else inside) rest + 1

/-- The port after the colon; the default port of the scheme is left out. -/
def readPort (scheme : String) (cs : List Char) : Except Fault (Option Nat) :=
  if cs.isEmpty then .ok none
  else if !cs.all Char.isDigit then .error .badPort
  else
    let n := cs.foldl (fun acc c => acc * 10 + (c.toNat - 48)) 0
    if 65535 < n then .error .badPort
    else .ok (if defaultPort? scheme = some n then none else some n)

/-- Whether an at sign lacks the host after it: there is one if a user is named, or if
more of the URL follows. -/
def lacksHost (followed : Bool) (cs : List Char) : Bool :=
  match cutLastAt? cs with
  | some (user, []) => if user.isEmpty then followed else userinfoText user != ""
  | _ => false

/-- The authority that a text denotes; `followed` says whether more of the URL comes
after it. -/
def readAuthority (scheme : String) (followed : Bool) (cs : List Char) :
    Except Fault Authority := do
  let special := isSpecial scheme
  let (user, rest) := (cutLastAt? cs).getD ([], cs)
  if lacksHost followed cs then throw .emptyHost
  let hostPart := rest.take (hostLength false rest)
  let afterHost := rest.drop hostPart.length
  if hostPart.isEmpty && (special || !afterHost.isEmpty) then throw .emptyHost
  let host ← if special then Host.parse hostPart else Host.parsePlain hostPart
  let port ← readPort scheme (afterHost.drop 1)
  return ⟨userinfoText user, host, port⟩

/-! ### Paths -/

/-- Whether a segment is a step to itself. -/
def isHere (segment : String) : Bool := [".", "%2e", "%2E"].contains segment

/-- Whether a segment is a step up. -/
def isUp (segment : String) : Bool :=
  ["..", "%2e%2e", "%2e%2E", "%2E%2e", "%2E%2E", "%2e.", "%2E.", ".%2e", ".%2E"].contains segment

/-- Carries out the steps among segments; `done` holds those before, backwards. -/
def resolve (scheme : String) : List String → List String → List String
  | done, [] => done.reverse
  | done, [last] =>
    if isUp last then ("" :: climb done).reverse
    else if isHere last then ("" :: done).reverse
    else (placed scheme done last :: done).reverse
  | done, s :: rest =>
    if isUp s then resolve scheme (climb done) rest
    else if isHere s then resolve scheme done rest
    else resolve scheme (placed scheme done s :: done) rest

/-- The segments of a path, without the slash that it begins with. -/
def segmentsOf (scheme : String) (cs : List Char) : List String :=
  resolve scheme [] ((cs.splitOnP (isSlash (isSpecial scheme))).map
    fun s => String.ofList (Text.Percent.encode pathKeep s))

/-- The path that a text denotes after an authority. -/
def pathAfterAuthority (scheme : String) (cs : List Char) : List String :=
  let special := isSpecial scheme
  match cs with
  | [] => if special then [""] else []
  | c :: rest => segmentsOf scheme (if isSlash special c then rest else cs)

/-! ### Whole URLs -/

/-- The path part, the query and the fragment of a text. -/
def cutTail (special : Bool) (cs : List Char) : List Char × Option String × Option String :=
  let body := cs.takeWhile (· != '#')
  let after := cs.drop body.length
  let fragment := if after.isEmpty then none
    else some (String.ofList (Text.Percent.encode fragmentKeep after.tail))
  let path := body.takeWhile (· != '?')
  let asked := body.drop path.length
  let query := if asked.isEmpty then none
    else some (String.ofList (Text.Percent.encode (queryKeep special) asked.tail))
  (path, query, fragment)

/-- The authority at the front of a text and the path after it. -/
def cutAuthority (special : Bool) (cs : List Char) : List Char × List Char :=
  let front := cs.takeWhile (!endsAuthority special ·)
  (front, cs.drop front.length)

/-- The host and the path of a file: after two slashes a host may stand, unless it is a
drive. -/
def cutFileHost (body : List Char) : List Char × List Char :=
  if 2 ≤ (body.takeWhile (isSlash true)).length then
    let (front, path) := cutAuthority true (body.drop 2)
    if isDrive (String.ofList front) then ([], front ++ path) else (front, path)
  else ([], body)

/-- A URL of a file. The own machine is not named, and a drive is always on it. -/
def parseFile (cs : List Char) : Except Fault Url := do
  let (body, query, fragment) := cutTail true cs
  let (front, path) := cutFileHost body
  let host ← if front.isEmpty then pure (Host.domain "") else Host.parse front
  let parts := pathAfterAuthority "file" path
  let host := if host = .domain "localhost" ∨ parts.head?.any isDrive then .domain "" else host
  return ⟨"file", some ⟨"", host, none⟩, .segments (withoutEmptyFront parts), query, fragment⟩

/-- A URL whose scheme has special rules for its host. -/
def parseSpecial (scheme : String) (cs : List Char) : Except Fault Url := do
  let (body, query, fragment) := cutTail true cs
  let (front, path) := cutAuthority true (body.dropWhile (isSlash true))
  let a ← readAuthority scheme true front
  return ⟨scheme, some a, .segments (pathAfterAuthority scheme path), query, fragment⟩

/-- A URL of any other scheme. -/
def parsePlain (scheme : String) (cs : List Char) : Except Fault Url := do
  let (body, query, fragment) := cutTail false cs
  match body with
  | '/' :: '/' :: rest =>
    let (front, path) := cutAuthority false rest
    let followed := !path.isEmpty || query.isSome || fragment.isSome
    let a ← readAuthority scheme followed front
    return ⟨scheme, some a, .segments (pathAfterAuthority scheme path), query, fragment⟩
  | '/' :: rest => return ⟨scheme, none, .segments (segmentsOf scheme rest), query, fragment⟩
  | text =>
    return ⟨scheme, none, .whole (String.ofList (Text.Percent.encode (!isControl ·) text)),
      query, fragment⟩

/-- Whether a character is ignored at the ends of a text. -/
def isMargin (c : Char) : Bool := c.toNat ≤ 32

/-- The URL that a text denotes. -/
def parse (s : String) : Except Fault Url := do
  let trimmed := ((s.toList.dropWhile isMargin).reverse.dropWhile isMargin).reverse
  let some (scheme, rest) := scheme? (trimmed.filter (!isDropped ·)) | throw .noScheme
  if scheme = "file" then parseFile rest
  else if isSpecial scheme then parseSpecial scheme rest
  else parsePlain scheme rest

end Mailroom.Url
