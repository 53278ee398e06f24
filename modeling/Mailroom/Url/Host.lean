/-
Hosts of URLs.

A host of a scheme with special rules is a domain name or an address. A domain name
is brought to lower case and its labels beyond ASCII to their ASCII form; a name
that ends in a number is an IPv4 address. A host in brackets is an IPv6 address. The
hosts of other schemes are kept as they are written.

* `Host.parse` — the host that a text denotes under special rules;
* `Host.parsePlain` — the host of any other scheme;
* `Host.render` — the written form.
-/
import Mailroom.Text.LowerCase
import Mailroom.Text.Percent
import Mailroom.Text.Utf8
import Mailroom.Url.Punycode

namespace Mailroom.Url

/-- Why a text is no URL. -/
inductive Fault where
  | emptyHost
  | badDomainName
  | badPort
  | badIpv4
  | badIpv6
  | badDomainCharacter
  | noScheme
  deriving DecidableEq, Repr

/-- The wording of a fault. -/
def Fault.message : Fault → String
  | emptyHost => "empty host"
  | badDomainName => "invalid international domain name"
  | badPort => "invalid port number"
  | badIpv4 => "invalid IPv4 address"
  | badIpv6 => "invalid IPv6 address"
  | badDomainCharacter => "invalid domain character"
  | noScheme => "relative URL without a base"

/-- Whether a character is a control character of ASCII or lies beyond ASCII. -/
def isControl (c : Char) : Bool := c.toNat < 32 || 127 ≤ c.toNat

/-! ### IPv4 -/

/-- The number of a part of an IPv4 address: hexadecimal after `0x`, octal after `0`,
decimal otherwise. -/
def ipv4Number? (cs : List Char) : Option Nat :=
  let (base, digits) := match cs with
    | '0' :: 'x' :: rest => (16, rest)
    | '0' :: 'X' :: rest => (16, rest)
    | '0' :: d :: rest => (8, d :: rest)
    | _ => (10, cs)
  if cs.isEmpty then none
  else digits.foldlM (fun acc c => do
    let d ← Text.Percent.hexValue? c
    if d < base then some (acc * base + d) else none) 0

/-- The labels of a name, without the empty one after a dot at its end. -/
def labels (name : List Char) : List (List Char) :=
  let all := name.splitOn '.'
  if all.length ≠ 1 ∧ all.getLast? = some [] then all.dropLast else all

/-- Whether the last label of a name is a number. -/
def endsInNumber (name : List Char) : Bool :=
  match (labels name).getLast? with
  | none => false
  | some last => (!last.isEmpty && last.all Char.isDigit) || (ipv4Number? last).isSome

/-- The four numbers of an IPv4 address. The last number fills the places that are
left. -/
def ipv4? (name : List Char) : Option (List Nat) := do
  let parts := labels name
  if 4 < parts.length then none
  let numbers ← parts.mapM ipv4Number?
  let last ← numbers.getLast?
  let front := numbers.dropLast
  if front.any (255 < ·) || Nat.pow 256 (4 - front.length) ≤ last then none
  let places := (List.range (4 - front.length)).reverse
  some (front ++ places.map fun i => last / Nat.pow 256 i % 256)

/-! ### IPv6 -/

/-- One piece of an IPv6 address: one to four hexadecimal digits. -/
def ipv6Piece? (cs : List Char) : Option Nat :=
  if cs.isEmpty || 4 < cs.length then none
  else cs.foldlM (fun acc c => (Text.Percent.hexValue? c).map (acc * 16 + ·)) 0

/-- One decimal number of an address, without leading zeros. -/
def decimalByte? (cs : List Char) : Option Nat :=
  if cs.isEmpty || 3 < cs.length || !cs.all Char.isDigit || (1 < cs.length && cs.head? = some '0')
  then none
  else (cs.foldl (fun acc c => acc * 10 + (c.toNat - 48)) 0 |> some).filter (· < 256)

/-- The pieces of one side of an IPv6 address. An IPv4 address may stand for the last
two pieces of the whole. -/
def ipv6Side? (isLast : Bool) (cs : List Char) : Option (List Nat) :=
  if cs.isEmpty then some []
  else
    let parts := cs.splitOn ':'
    let last := parts.getLastD []
    if isLast && last.contains '.' then do
      let front ← parts.dropLast.mapM ipv6Piece?
      match ← (last.splitOn '.').mapM decimalByte? with
      | [a, b, c, d] => some (front ++ [a * 256 + b, c * 256 + d])
      | _ => none
    else parts.mapM ipv6Piece?

/-- Cuts at the first pair of colons. -/
def cutDoubleColon? : List Char → Option (List Char × List Char)
  | ':' :: ':' :: rest => some ([], rest)
  | c :: rest => (cutDoubleColon? rest).map fun (a, b) => (c :: a, b)
  | [] => none

/-- The eight pieces of an IPv6 address; a pair of colons stands for the pieces that
are missing, of which there is one at least. -/
def ipv6? (cs : List Char) : Option (List Nat) :=
  match cutDoubleColon? cs with
  | none => (ipv6Side? true cs).filter (·.length = 8)
  | some (before, after) => do
    let front ← ipv6Side? false before
    let back ← ipv6Side? true after
    if 7 < front.length + back.length then none
    some (front ++ List.replicate (8 - front.length - back.length) 0 ++ back)

/-- The length of the run of zeros at the front. -/
def zeroRun (pieces : List Nat) : Nat := (pieces.takeWhile (· == 0)).length

/-- The place and length of the first of the longest runs of zeros. -/
def longestZeros (pieces : List Nat) : Nat × Nat :=
  (List.range pieces.length).foldl (fun best i =>
    let run := zeroRun (pieces.drop i)
    if best.2 < run then (i, run) else best) (0, 0)

/-- The written form of an IPv6 address without its brackets. -/
def ipv6Text (pieces : List Nat) : String :=
  let hex (ps : List Nat) :=
    ":".intercalate (ps.map fun p => String.ofList (Nat.toDigits 16 p))
  let (start, run) := longestZeros pieces
  if run < 2 then hex pieces else hex (pieces.take start) ++ "::" ++ hex (pieces.drop (start + run))

/-! ### Domain names -/

/-- The characters that no domain name holds. -/
def isForbidden (c : Char) : Bool :=
  c.toNat ≤ 32 || c.toNat == 127 ||
    ['%', '#', '/', ':', '<', '>', '?', '@', '[', '\\', ']', '^', '|'].contains c

/-- The characters beyond ASCII that no name holds: controls, marks of lines and of the
direction of writing, those for private use and those that stand for no character. -/
def isMeaningless (c : Char) : Bool :=
  let n := c.toNat
  (0x80 ≤ n && n ≤ 0x9F) || n == 0x200E || n == 0x200F || (0x2028 ≤ n && n ≤ 0x202E) ||
    (0xE000 ≤ n && n ≤ 0xF8FF) || (0xFFF9 ≤ n && n ≤ 0xFFFF) || 0xF0000 ≤ n

/-- One character of a name in its usual form: small letters, the wide forms of
ASCII as ASCII, the other full stops as dots, the other spaces as a space, and the soft
hyphen left out. -/
def usualForm (c : Char) : List Char :=
  if 0xFF01 ≤ c.toNat ∧ c.toNat ≤ 0xFF5E then Text.lowerChar (Char.ofNat (c.toNat - 0xFEE0))
  else if c.toNat = 0x3002 ∨ c.toNat = 0xFF61 then ['.']
  else if c.toNat = 0xA0 ∨ c.toNat = 0x3000 then [' ']
  else if c.toNat = 0xAD ∨ c.toNat = 0x200B ∨ c.toNat = 0x2060 ∨ c.toNat = 0xFEFF then []
  else Text.lowerChar c

/-- The ASCII form of a label. A label that claims to be one has to be the form of
something beyond ASCII in its usual form. -/
def labelToAscii? (label : List Char) : Option (List Char) :=
  match label with
  | 'x' :: 'n' :: '-' :: '-' :: rest => do
    let read ← Punycode.decode? rest
    if label.any (128 ≤ ·.toNat) || read.all (·.toNat < 128) || Punycode.encode read ≠ rest then none
    if read.any isMeaningless || read.flatMap usualForm ≠ read then none
    some label
  | _ =>
    if label.any isMeaningless then none
    else if label.all (·.toNat < 128) then some label
    else some (['x', 'n', '-', '-'] ++ Punycode.encode label)

/-- The ASCII form of a domain name. -/
def domainToAscii? (name : List Char) : Option (List Char) := do
  let parts ← ((name.flatMap usualForm).splitOn '.').mapM labelToAscii?
  let ascii := List.intercalate ['.'] parts
  if ascii.any isForbidden then none else some ascii

/-- A host. -/
inductive Host where
  | domain (name : String)
  | ipv4 (parts : List Nat)
  | ipv6 (pieces : List Nat)
  deriving DecidableEq, Repr

namespace Host

/-- The written form of a host. -/
def render : Host → String
  | domain name => name
  | ipv4 parts => ".".intercalate (parts.map toString)
  | ipv6 pieces => "[" ++ ipv6Text pieces ++ "]"

/-- A host in brackets. -/
def bracketed (cs : List Char) : Except Fault Host :=
  if cs.getLast? ≠ some ']' then .error .badIpv6
  else
    match ipv6? (cs.drop 1).dropLast with
    | some pieces => .ok (.ipv6 pieces)
    | none => .error .badIpv6

/-- The host that a text denotes under special rules. -/
def parse (cs : List Char) : Except Fault Host := do
  if cs.head? = some '[' then return ← bracketed cs
  let some name := Text.decode? (Text.Percent.decode cs) | throw .badDomainName
  let some ascii := domainToAscii? name.toList | throw .badDomainName
  if ascii.isEmpty then throw .emptyHost
  if endsInNumber ascii then
    let some parts := ipv4? ascii | throw .badIpv4
    return .ipv4 parts
  return .domain (String.ofList ascii)

/-- The host of a scheme without special rules. -/
def parsePlain (cs : List Char) : Except Fault Host :=
  if cs.head? = some '[' then bracketed cs
  else if cs.any fun c => c != '%' && isForbidden c && (c.toNat == 0 || !isControl c) then
    .error .badDomainCharacter
  else .ok (.domain (String.ofList (Text.Percent.encode (!isControl ·) cs)))

end Host

end Mailroom.Url
