/-!
IP addresses and their canonical text. An IPv4-mapped IPv6 address is an IPv6 address: it differs
from the IPv4 address that it holds.
-/
namespace SctpTrace

inductive Address where
  | v4 (octets : Vector UInt8 4)
  | v6 (groups : Vector UInt16 8)
  deriving DecidableEq, Repr

namespace Address

def ofOctets (a b c d : UInt8) : Address := v4 #v[a, b, c, d]

def dotted (octets : List UInt8) : String :=
  ".".intercalate (octets.map fun o => toString o.toNat)

def hexText (group : UInt16) : String :=
  String.ofList (Nat.toDigits 16 group.toNat)

def colonText (groups : List UInt16) : String :=
  ":".intercalate (groups.map hexText)

def high (group : UInt16) : UInt8 := UInt8.ofNat (group.toNat / 256)

def low (group : UInt16) : UInt8 := UInt8.ofNat group.toNat

structure ZeroRun where
  start : Nat
  length : Nat
  deriving DecidableEq, Repr

def leadingZeros (groups : List UInt16) : Nat := (groups.takeWhile (· == 0)).length

def longestZeroRun : (start : Nat) → List UInt16 → ZeroRun
  | start, [] => ⟨start, 0⟩
  | start, g :: rest =>
    let here := ⟨start, leadingZeros (g :: rest)⟩
    let later := longestZeroRun (start + 1) rest
    if here.length < later.length then later else here

def groupsText (groups : List UInt16) : String :=
  let run := longestZeroRun 0 groups
  if run.length < 2 then colonText groups
  else colonText (groups.take run.start) ++ "::" ++ colonText (groups.drop (run.start + run.length))

/-- The canonical text: dotted for IPv4 and for the end of an IPv4-mapped address. -/
def text : Address → String
  | v4 octets => dotted octets.toList
  | v6 groups =>
    match groups.toList with
    | [0, 0, 0, 0, 0, 0xffff, a, b] => "::ffff:" ++ dotted [high a, low a, high b, low b]
    | list => groupsText list

/- Reading. -/

def digitValue? (c : Char) : Option Nat :=
  if '0' ≤ c ∧ c ≤ '9' then some (c.toNat - '0'.toNat)
  else if 'a' ≤ c ∧ c ≤ 'f' then some (c.toNat - 'a'.toNat + 10)
  else if 'A' ≤ c ∧ c ≤ 'F' then some (c.toNat - 'A'.toNat + 10)
  else none

def numeral? (base : Nat) (digits : List Char) : Option Nat :=
  digits.foldlM
    (fun n c => (digitValue? c).bind fun d => if d < base then some (n * base + d) else none) 0

def octet? (digits : List Char) : Option UInt8 :=
  if digits = [] ∨ 3 < digits.length ∨ (digits.head? = some '0' ∧ digits ≠ ['0']) then none
  else (numeral? 10 digits).bind fun n => if n < 256 then some (UInt8.ofNat n) else none

def group? (digits : List Char) : Option UInt16 :=
  if digits = [] ∨ 4 < digits.length then none else (numeral? 16 digits).map UInt16.ofNat

def splitAll (mark : Char) (text : List Char) : List (List Char) :=
  text.foldr
    (fun c parts =>
      match parts with
      | [] => [[c]]
      | part :: rest => if c = mark then [] :: part :: rest else (c :: part) :: rest) [[]]

def quad? (text : List Char) : Option (List UInt8) :=
  (splitAll '.' text).mapM octet?

def join (a b : UInt8) : UInt16 := UInt16.ofNat (a.toNat * 256 + b.toNat)

/-- Groups between colons; the last one may be a dotted address, which stands for two groups. -/
def groups? : List (List Char) → Option (List UInt16)
  | [] => some []
  | [final] =>
    if final.contains '.' then
      match quad? final with
      | some [a, b, c, d] => some [join a b, join c d]
      | _ => none
    else (group? final).map ([·])
  | part :: rest => (group? part).bind fun g => (groups? rest).map (g :: ·)

def groupList? (text : List Char) : Option (List UInt16) :=
  if text = [] then some [] else groups? (splitAll ':' text)

def cutDouble? : List Char → Option (List Char × List Char)
  | ':' :: ':' :: rest => some ([], rest)
  | c :: rest => (cutDouble? rest).map fun (before, after) => (c :: before, after)
  | [] => none

def sixteen? (text : List Char) : Option (List UInt16) :=
  match cutDouble? text with
  | none => groupList? text
  | some (before, after) => do
    let head ← groupList? before
    let tail ← groupList? after
    if before.contains '.' ∨ 8 ≤ head.length + tail.length then none
    else some (head ++ List.replicate (8 - head.length - tail.length) 0 ++ tail)

def parse? (text : String) : Option Address :=
  let chars := text.toList
  if chars.contains ':' then
    (sixteen? chars).bind fun groups =>
      if h : groups.length = 8 then some (.v6 ⟨groups.toArray, by simpa using h⟩) else none
  else
    (quad? chars).bind fun octets =>
      if h : octets.length = 4 then some (.v4 ⟨octets.toArray, by simpa using h⟩) else none

end Address

end SctpTrace
