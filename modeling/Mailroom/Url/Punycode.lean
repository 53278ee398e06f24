/-
Punycode: labels of any characters in the letters, digits and hyphen of a host name.

The ASCII characters of a label come first, then a hyphen if there are any, then a
number in a mixed base for each other character, in the order of code points. The
number says where the character goes, counted from the one before it.

* `encode` — the ASCII form of a label, without the `xn--` in front;
* `decode?` — the label with this ASCII form.
-/
namespace Mailroom.Url.Punycode

/-- The digit of a number below 36: the letters count from 0, the digits from 26. -/
def digit (n : Nat) : Char := if n < 26 then Char.ofNat (97 + n) else Char.ofNat (22 + n)

/-- The number that a digit stands for. -/
def value? (c : Char) : Option Nat :=
  if 'a' ≤ c ∧ c ≤ 'z' then some (c.toNat - 97)
  else if 'A' ≤ c ∧ c ≤ 'Z' then some (c.toNat - 65)
  else if '0' ≤ c ∧ c ≤ '9' then some (c.toNat - 22)
  else none

/-- The least value at which position `k` carries over. -/
def threshold (k bias : Nat) : Nat := max 1 (min 26 (k - bias))

/-- Divides a distance down, counting how often. -/
def scaled : Nat → Nat → Nat × Nat
  | 0, delta => (0, delta)
  | fuel + 1, delta =>
    if 455 < delta then
      let (k, rest) := scaled fuel (delta / 35)
      (k + 36, rest)
    else (0, delta)

/-- The bias after a distance, for `count` characters placed so far. -/
def adapt (delta count : Nat) (first : Bool) : Nat :=
  let delta := if first then delta / 700 else delta / 2
  let delta := delta + delta / count
  let (k, rest) := scaled delta delta
  k + 36 * rest / (rest + 38)

/-- A number in the mixed base, from position `k` on. -/
def number : Nat → Nat → Nat → Nat → List Char
  | 0, _, _, q => [digit q]
  | fuel + 1, k, bias, q =>
    let t := threshold k bias
    if q < t then [digit q]
    else digit (t + (q - t) % (36 - t)) :: number fuel (k + 36) bias ((q - t) / (36 - t))

/-- What is known while the characters are placed one after another. -/
structure State where
  delta : Nat
  bias : Nat
  placed : Nat
  written : List Char

/-- Passes over the label once for the code point `m`. -/
def placeAll (basic m : Nat) (label : List Char) (s : State) : State :=
  label.foldl (fun s c =>
    if c.toNat < m then { s with delta := s.delta + 1 }
    else if c.toNat = m then
      ⟨0, adapt s.delta (s.placed + 1) (s.placed == basic), s.placed + 1,
        s.written ++ number s.delta 36 s.bias s.delta⟩
    else s) s

/-- The code points beyond ASCII, each once and in order. -/
def codePoints (label : List Char) : List Nat :=
  ((label.map Char.toNat).filter (128 ≤ ·)).mergeSort.eraseDups

/-- The ASCII form of a label. -/
def encode (label : List Char) : List Char :=
  let ascii := label.filter (·.toNat < 128)
  let start : State :=
    ⟨0, 72, ascii.length, if ascii.isEmpty then [] else ascii ++ ['-']⟩
  let step (acc : Nat × State) (m : Nat) : Nat × State :=
    let (n, s) := acc
    let s := placeAll ascii.length m label { s with delta := s.delta + (m - n) * (s.placed + 1) }
    (m + 1, { s with delta := s.delta + 1 })
  ((codePoints label).foldl step (128, start)).2.written

/-- Reads one number: its value and the text after it. -/
def readNumber : Nat → Nat → Nat → List Char → Option (Nat × List Char)
  | _, _, _, [] => none
  | k, bias, weight, c :: rest => do
    let d ← value? c
    let t := threshold k bias
    if d < t then some (d * weight, rest)
    else
      let (more, rest) ← readNumber (k + 36) bias (weight * (36 - t)) rest
      some (d * weight + more, rest)

/-- Places the characters whose numbers are left. -/
def placeNumbers : Nat → Nat → Nat → Nat → Bool → List Char → List Char → Option (List Char)
  | _, _, _, _, _, label, [] => some label
  | 0, _, _, _, _, _, _ => none
  | fuel + 1, n, i, bias, first, label, cs => do
    let (delta, rest) ← readNumber 36 bias 1 cs
    let count := label.length + 1
    let spot := i + delta
    let n := n + spot / count
    if 0x10FFFF < n then none
    let place := spot % count
    placeNumbers fuel n (place + 1) (adapt delta count first) false
      (label.take place ++ Char.ofNat n :: label.drop place) rest

/-- The label with this ASCII form. -/
def decode? (cs : List Char) : Option (List Char) :=
  let tail := (cs.reverse.takeWhile (· != '-')).reverse
  let head := (cs.take (cs.length - tail.length)).dropLast
  placeNumbers tail.length 128 0 72 true head tail

end Mailroom.Url.Punycode
