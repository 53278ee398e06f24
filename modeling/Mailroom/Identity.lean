/-
Who this process is.

An agent's id is given, or taken from the git branch it works on, or from the name of
the folder it works in, or from the number of its process. Ids taken from elsewhere
are brought to small letters, digits and single hyphens.

* `sanitize` — the id in a text;
* `deriveAgentId` — the id from all its sources;
* `Identity.resolve` — the identity in some surroundings.
-/
import Mailroom.Surroundings
import Mailroom.Text.Blank
import Mailroom.Text.LowerCase

namespace Mailroom

/-- An agent's id, and where the agent works. -/
structure Identity where
  agentId : String
  branch : Option String
  worktree : Option String
  deriving DecidableEq, Repr

/-- Whether a character may stand in an id. -/
def isIdChar (c : Char) : Bool := ('a' ≤ c && c ≤ 'z') || ('0' ≤ c && c ≤ '9')

/-- Writes one hyphen for every run of characters that may not stand in an id. -/
def hyphenate : Bool → List Char → List Char
  | _, [] => []
  | inRun, c :: cs =>
    if isIdChar c then c :: hyphenate false cs
    else if inRun then hyphenate true cs
    else '-' :: hyphenate true cs

/-- The text without the hyphens at its ends. -/
def trimHyphens (cs : List Char) : List Char :=
  ((cs.dropWhile (· == '-')).reverse.dropWhile (· == '-')).reverse

/-- The characters of the id in a text. -/
def sanitizeChars (cs : List Char) : List Char := trimHyphens (hyphenate false (Text.lower cs))

/-- The id in a text: in lower case, with one hyphen for everything between runs of
letters and digits. -/
def sanitize (s : String) : String := String.ofList (sanitizeChars s.toList)

/-- Branches that say nothing about who works on them. -/
def genericBranches : List String := ["HEAD", "main", "master"]

/-- The id in a text, if there is one. -/
def idIn? (s : String) : Option String := some (sanitize s) |>.filter (!·.isEmpty)

/-- The id of an agent: the one given, or from the branch, the folder or the process. -/
def deriveAgentId (given branch folder : Option String) (processId : Nat) : String :=
  ((Text.nonBlank? given).or
    (((branch.filter fun b => !genericBranches.contains b).bind idIn?).or
      ((folder.bind PathText.fileName?).bind idIn?))).getD ("agent-" ++ toString processId)

/-- The git branch of the current folder. -/
def currentBranch (w : Surroundings) : Option String × Surroundings :=
  match w.run "git" ["rev-parse", "--abbrev-ref", "HEAD"] with
  | (.error _, w) => (none, w)
  | (.ok exit, w) =>
    let branch := String.ofList (Text.trim (Text.decodeLossy exit.output))
    (if exit.code = 0 ∧ ¬ branch.isEmpty then some branch else none, w)

/-- The identity in the current folder. -/
def Identity.resolve (given : Option String) (w : Surroundings) : Identity × Surroundings :=
  match w.folderPath? with
  | none => (⟨deriveAgentId given none none w.processId, none, none⟩, w)
  | some folder =>
    let (branch, w) := currentBranch w
    (⟨deriveAgentId given branch (some folder) w.processId, branch, some folder⟩, w)

end Mailroom
