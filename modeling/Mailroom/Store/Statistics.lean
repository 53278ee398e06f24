/-
Counting what the store holds.

* `Statistics` — messages by status and by type, and the times of the oldest and the
  newest one;
* `Store.statistics` — the statistics of a store, refused if a row has an unknown
  status. Types are counted as they are written.
-/
import Mailroom.Store.Basic

namespace Mailroom

/-- The numbers that describe a store. -/
structure Statistics where
  total : Nat
  unread : Nat
  read : Nat
  archived : Nat
  /-- each type that occurs, in order, with the number of its messages -/
  byType : List (String × Nat)
  oldest : Option String
  newest : Option String
  deriving DecidableEq, Repr

/-- The different texts of a list, in order, each with the number of its occurrences. -/
def tally (texts : List String) : List (String × Nat) :=
  (texts.mergeSort fun a b => a ≤ b).eraseDups.map fun t => (t, texts.count t)

/-- The least text of a list. -/
def least? (texts : List String) : Option String :=
  texts.foldl (fun best t => match best with
    | none => some t
    | some b => some (if t < b then t else b)) none

/-- The greatest text of a list. -/
def greatest? (texts : List String) : Option String :=
  texts.foldl (fun best t => match best with
    | none => some t
    | some b => some (if b < t then t else b)) none

/-- The statistics with one status counted. -/
def Statistics.add (x : Statistics) (status : MessageStatus) (n : Nat) : Statistics :=
  let x := { x with total := x.total + n }
  match status with
  | .unread => { x with unread := n }
  | .read => { x with read := n }
  | .archived => { x with archived := n }

namespace Store

/-- The statistics of a store. -/
def statistics (s : Store) : Except StorageFault Statistics := do
  let start : Statistics := ⟨0, 0, 0, 0, tally (s.messages.map (·.type)),
    least? (s.messages.map (·.createdAt)), greatest? (s.messages.map (·.createdAt))⟩
  (tally (s.messages.map (·.status))).foldlM (fun x (text, n) => do
    let status ← column 0 MessageStatus.parse text
    return x.add status n) start

end Store

end Mailroom
