/-
Reading the words of a command line.

An option waits for its value, and is only looked at when the next word shows that it
is complete; so a fault of one option may be preceded by that of a later word which
cannot stand at all.

* `Level` — what may stand at some point: before the command, or after it;
* `readWords` — the options up to a command or the end;
* `Given` — the options that were read, each name at most once;
* `readLine` — the command of a line with its options.

A word that begins with a hyphen is never the value of an option that stands before
it, except for a single hyphen. After the word `--` all words are plain.
-/
import Mailroom.CommandLine.Grammar
import Mailroom.Text.Lines
import Mailroom.Text.Numeral

namespace Mailroom.CommandLine

/-! ### Values -/

/-- The greatest number of 64 bits. -/
def maxLongWord : Nat := UInt64.size - 1

/-- A number of days: a numeral of 32 bits, where zero may have a minus sign. -/
def days? (cs : List Char) : Option Nat :=
  match cs with
  | '-' :: rest => (Text.natural? rest).filter (· == 0)
  | _ => Text.unsigned? Text.maxWord cs

/-- What is wrong with a value, if anything. -/
def Operand.fault? (value : String) : Operand → Option UsageFault
  | nothing | text => none
  | path => if value.isEmpty then some .missingValue else none
  | days => if (days? value.toList).isSome then none else some .badValue
  | seconds => if (Text.unsigned? maxLongWord value.toList).isSome then none else some .badValue

/-- The options that were read, by name. The id of a message has the empty name. -/
abbrev Given := List (String × String)

/-- The value of an option. -/
def Given.get? (g : Given) (name : String) : Option String := (g.find? (·.1 == name)).map (·.2)

/-- Whether an option was given. -/
def Given.has (g : Given) (name : String) : Bool := (g.get? name).isSome

/-- The place of an id among the options. -/
def idRule : OptionRule := ⟨"", .text⟩

/-! ### Levels -/

/-- What may stand at some point of a command line. -/
structure Level where
  options : List OptionRule
  takesId : Bool
  /-- whether a command has to follow -/
  isTop : Bool

/-- What may stand before the command. -/
def topLevel : Level := ⟨[agentRule], false, true⟩

/-- What may stand after the name of a command. -/
def CommandRule.level (c : CommandRule) : Level := ⟨agentRule :: c.options, c.takesId, false⟩

/-- How far a level has been read: the complete options, and one that may still be
waiting for its value. -/
structure Reading where
  given : Given
  pending : Option (OptionRule × Option String)
  /-- whether all further words are plain -/
  plainOnly : Bool

namespace Reading

/-- Nothing read. -/
def start : Reading := ⟨[], none, false⟩

/-- Adds a complete option. -/
def add (r : Reading) (rule : OptionRule) (value : Option String) : Except UsageFault Reading :=
  match value with
  | none => .error .missingValue
  | some v =>
    if r.given.has rule.name then .error .repeated
    else
      match rule.operand.fault? v with
      | some e => .error e
      | none => .ok { r with given := r.given ++ [(rule.name, v)] }

/-- Completes the option that is pending. -/
def resolve (r : Reading) : Except UsageFault Reading :=
  match r.pending with
  | none => .ok r
  | some (rule, value) => ({ r with pending := none } : Reading).add rule value

/-- Whether the next plain word is the value of an option. -/
def isWaiting (r : Reading) : Bool :=
  !r.plainOnly && match r.pending with
    | some (_, none) => true
    | _ => false

/-- The answer to a word that asks for help or the version: what was pending comes first. -/
def request (r : Reading) (wanted : UsageFault) : Except UsageFault Reading := do
  let _ ← r.resolve
  throw wanted

/-- Whether the id has been given. -/
def hasId (r : Reading) : Bool :=
  r.given.has idRule.name || match r.pending with
    | some (rule, _) => rule == idRule
    | none => false

end Reading

/-! ### Words -/

/-- What a word is, by its look. -/
inductive Shape where
  /-- the word `--` -/
  | divider
  /-- an option, with the value that is attached to it -/
  | long (name : String) (value : Option String)
  /-- one hyphen and a letter -/
  | short (letter : Char)
  | plain
  deriving DecidableEq, Repr

/-- The shape of a word. -/
def shape (word : String) : Shape :=
  match word.toList with
  | ['-', '-'] => .divider
  | '-' :: '-' :: rest =>
    match Text.cut? '=' rest with
    | some (name, value) => .long (String.ofList name) (some (String.ofList value))
    | none => .long (String.ofList rest) none
  | '-' :: letter :: _ => .short letter
  | _ => .plain

namespace Level

/-- Reads an option of two hyphens. -/
def readLong (level : Level) (r : Reading) (name : String) (value : Option String) :
    Except UsageFault Reading :=
  if name = helpWord ∨ (level.isTop ∧ name = "version") then
    if value.isSome then .error .valueNotTaken
    else r.request (if name = helpWord then .helpWanted else .versionWanted)
  else
    match level.options.find? (·.name == name) with
    | none => .error .unknownArgument
    | some rule =>
      if rule.operand = .nothing then
        if value.isSome then .error .valueNotTaken else do (← r.resolve).add rule (some "")
      else
        match value with
        | some v => do (← r.resolve).add rule (some v)
        | none => do return { (← r.resolve) with pending := some (rule, none) }

/-- Reads an option of one hyphen. -/
def readShort (level : Level) (r : Reading) (letter : Char) : Except UsageFault Reading :=
  if letter = 'h' then r.request .helpWanted
  else if level.isTop ∧ letter = 'V' then r.request .versionWanted
  else .error .unknownArgument

/-- Reads a word that is no option. -/
def readPlain (level : Level) (r : Reading) (word : String) : Except UsageFault Reading :=
  if level.takesId && !r.hasId then do
    return { (← r.resolve) with pending := some (idRule, some word) }
  else if level.isTop && !(r.plainOnly && isCommandWord word) then .error .unknownCommand
  else .error .unknownArgument

/-- Reads one word. -/
def readWord (level : Level) (r : Reading) (word : String) : Except UsageFault Reading :=
  if r.plainOnly then level.readPlain r word
  else
    match shape word with
    | .divider => .ok { r with plainOnly := true }
    | .long name value => level.readLong r name value
    | .short letter => level.readShort r letter
    | .plain =>
      match r.pending with
      | some (rule, none) => .ok { r with pending := some (rule, some word) }
      | _ => level.readPlain r word

/-- Reads words up to a command, which is given with the words after it, or the end. -/
def readWords (level : Level) :
    Reading → List String → Except UsageFault (Reading × Option (String × List String))
  | r, [] => .ok (r, none)
  | r, word :: rest =>
    if level.isTop && !r.plainOnly && !r.isWaiting && isCommandWord word then
      .ok (r, some (word, rest))
    else do readWords level (← level.readWord r word) rest

end Level

/-! ### Lines -/

/-- A command, the options that stand after it, and the agent as whom to act. -/
structure Line where
  command : String
  options : Given
  agent : Option String
  deriving DecidableEq, Repr

/-- Answers a question about a command. -/
def readHelp : List String → UsageFault
  | [] => .helpWanted
  | [word] => if isCommandWord word then .helpWanted else .unknownCommand
  | _ => .unknownCommand

/-- Reads what stands after the name of a command. -/
def readOptions (rule : CommandRule) (words : List String) : Except UsageFault Given := do
  let (r, _) ← rule.level.readWords .start words
  let r ← r.resolve
  if rule.takesId && !r.given.has idRule.name then throw .missingId
  return r.given

/-- Reads a command line. The agent named after the command counts first. -/
def readLine (words : List String) : Except UsageFault Line := do
  let (top, found) ← topLevel.readWords .start words
  match found with
  | none =>
    let top ← top.resolve
    throw (if top.given.isEmpty then .nothingGiven else .noCommand)
  | some (name, rest) =>
    match commandRule? name with
    | none => throw (readHelp rest)
    | some rule =>
      let options ← readOptions rule rest
      let top ← top.resolve
      return ⟨name, options, (options.get? agentRule.name).or (top.given.get? agentRule.name)⟩

end Mailroom.CommandLine
