/-
Patterns of file names.

In a pattern `?` stands for any character, `*` for any text, `[abc]` and `[a-z]` for
one of some characters and `[!abc]` for any other character. Two stars, as a whole
name between slashes, stand for any number of folders.

* `NamePattern.parse` — the tokens of a pattern, or where it cannot be read;
* `NamePattern.accepts` — whether a name fits.

Names that begin with a dot are treated like all others, and so are capital letters.
-/
namespace Mailroom

namespace NamePattern

/-- One piece of a pattern. -/
inductive Token where
  | char (c : Char)
  | anyChar
  | anyText
  | anyFolders
  /-- one of the characters in some ranges -/
  | within (ranges : List (Char × Char))
  /-- none of the characters in some ranges -/
  | outside (ranges : List (Char × Char))
  deriving DecidableEq, Repr

/-- Why a pattern cannot be read. -/
inductive Reason where
  | tooManyStars
  | starsInName
  | badRange
  deriving DecidableEq, Repr

/-- A pattern that cannot be read: the position counts characters from 0. -/
structure Fault where
  position : Int
  reason : Reason
  deriving DecidableEq, Repr

/-- The wording of a fault. -/
def Fault.message (f : Fault) : String :=
  "Pattern syntax error near position " ++ toString f.position ++ ": " ++
    match f.reason with
    | .tooManyStars => "wildcards are either regular `*` or recursive `**`"
    | .starsInName => "recursive wildcards must form a single path component"
    | .badRange => "invalid range pattern"

/-! ### Reading -/

/-- The ranges in brackets: two characters with a hyphen between them, or one. -/
def ranges : List Char → List (Char × Char)
  | a :: '-' :: b :: rest => (a, b) :: ranges rest
  | a :: rest => (a, a) :: ranges rest
  | [] => []

/-- The token of a pair of brackets, after the first of them, and the text after the
other. At least one character stands in between. -/
def brackets? (cs : List Char) : Option (Token × List Char) :=
  let close (more : List Char) := more.takeWhile (· != ']')
  match cs with
  | '!' :: c :: more =>
    let inside := close more
    if inside.length < more.length then
      some (.outside (ranges (c :: inside)), more.drop (inside.length + 1))
    else none
  | '!' :: [] => none
  | c :: more =>
    let inside := close more
    if inside.length < more.length then
      some (.within (ranges (c :: inside)), more.drop (inside.length + 1))
    else none
  | [] => none

/-- The tokens from some position on; `before` is the character in front of it. -/
def parseFrom : Nat → Int → Option Char → List Char → Except Fault (List Token)
  | 0, _, _, _ => .ok []
  | _, _, _, [] => .ok []
  | fuel + 1, i, before, c :: cs =>
    if c = '?' then return .anyChar :: (← parseFrom fuel (i + 1) (some c) cs)
    else if c = '*' then
      let stars := (cs.takeWhile (· == '*')).length + 1
      let rest := cs.drop (stars - 1)
      if 2 < stars then throw ⟨i + 2, .tooManyStars⟩
      else if stars = 1 then return .anyText :: (← parseFrom fuel (i + 1) (some c) rest)
      else if before.isSome ∧ before ≠ some '/' then throw ⟨i - 1, .starsInName⟩
      else
        match rest with
        | [] => return [.anyFolders]
        | s :: after =>
          if s = '/' then return .anyFolders :: (← parseFrom fuel (i + 3) (some s) after)
          else throw ⟨i + 2, .starsInName⟩
    else if c = '[' then
      match brackets? cs with
      | none => throw ⟨i, .badRange⟩
      | some (token, rest) =>
        return token :: (← parseFrom fuel (i + 1 + (cs.length - rest.length : Nat)) (some ']') rest)
    else return .char c :: (← parseFrom fuel (i + 1) (some c) cs)

/-- The tokens of a pattern. -/
def parse (pattern : List Char) : Except Fault (List Token) :=
  parseFrom (pattern.length + 1) 0 none pattern

/-! ### Fitting -/

/-- Whether a character lies in one of some ranges. -/
def inRanges (ranges : List (Char × Char)) (c : Char) : Bool :=
  ranges.any fun (a, b) => a ≤ c && c ≤ b

/-- Whether a condition holds of a text or of one of its ends. -/
def someEnd (p : List Char → Bool) : List Char → Bool
  | [] => p []
  | c :: cs => p (c :: cs) || someEnd p cs

/-- Whether a condition holds of what follows a first character of some kind. -/
def afterFirst (good : Char → Bool) (p : List Char → Bool) : List Char → Bool
  | [] => false
  | c :: cs => good c && p cs

/-- Whether a name fits some tokens. -/
def accepts : List Token → List Char → Bool
  | [] => List.isEmpty
  | .char x :: ts => afterFirst (· == x) (accepts ts)
  | .anyChar :: ts => afterFirst (fun _ => true) (accepts ts)
  | .within rs :: ts => afterFirst (inRanges rs) (accepts ts)
  | .outside rs :: ts => afterFirst (!inRanges rs ·) (accepts ts)
  | .anyText :: ts => someEnd (accepts ts)
  | .anyFolders :: ts => someEnd (accepts ts)

/-- The only name that fits, if the tokens are nothing but characters. -/
def literal? : List Token → Option (List Char)
  | [] => some []
  | .char c :: ts => (literal? ts).map (c :: ·)
  | _ :: _ => none

end NamePattern

end Mailroom
