import SctpTrace.Decimal.Binary64
import SctpTrace.Json.Document
import SctpTrace.Keyed

/-!
Settings from several sources. A setting is a loosely typed value: the reader asks for a truth
value, a number or a text, and the setting converts itself if it can.
-/
namespace SctpTrace.Config

open Decimal Json

inductive Setting where
  | nil
  | bool (value : Bool)
  | int (value : Int)
  | float (value : Binary64)
  | text (value : String)
  | list (items : List Setting)
  | table (entries : List (String × Setting))
  deriving Repr

namespace Setting

def lowest64 : Int := -9223372036854775808

def highest64 : Int := 9223372036854775807

def word64Limit : Nat := 18446744073709551616

def lowerCase (s : String) : String := String.ofList (s.toList.map Char.toLower)

/-- Lower case in a name, as far as the names of settings go: the letters of ASCII, and the Kelvin
sign, which is a capital k too. -/
def lowerNameChar (c : Char) : Char := if c.toNat = 0x212A then 'k' else c.toLower

def lowerName (name : String) : String := String.ofList (name.toList.map lowerNameChar)

/- Reading a number. Digits enter the significand as long as it fits in 64 bits. Further whole
   digits count as zeros; a digit after the point that does not fit ends the significand. -/

structure Significand where
  value : Nat
  dropped : Nat
  deriving DecidableEq, Repr

def wholeSignificand (value : Nat) : List Nat → Significand
  | [] => ⟨value, 0⟩
  | d :: rest =>
    if word64Limit ≤ value * 10 + d then ⟨value, rest.length + 1⟩
    else wholeSignificand (value * 10 + d) rest

def fractionSignificand (value places : Nat) : List Nat → Nat × Nat
  | [] => (value, places)
  | d :: rest =>
    if word64Limit ≤ value * 10 + d then (value, places)
    else fractionSignificand (value * 10 + d) (places + 1) rest

def floatOf? (n : Numeral) : Option Binary64 :=
  let whole := wholeSignificand 0 n.whole
  let (significand, places) := fractionSignificand whole.value 0 (n.fraction.getD [])
  let exponent : Int := (whole.dropped : Int) - (places : Int) + n.exponent.getD 0
  (Magnitude.ofDecimal? significand exponent).map fun m => ⟨n.negative, m⟩

/-- A whole number of 64 bits with sign, or else a floating-point number; minus zero is one. -/
def ofNumeral? (n : Numeral) : Option Setting :=
  let size : Int := digitsValue n.whole
  let value := if n.negative then -size else size
  if n.fraction.isNone && n.exponent.isNone && !(n.negative && size == 0) &&
      decide (lowest64 ≤ value) && decide (value ≤ highest64) then
    some (.int value)
  else (floatOf? n).map .float

mutual

/-- The setting that a document holds. All its strings must have text and all its numbers must be in
range; of members with the same key the last one counts. -/
def ofDocument? : Document → Option Setting
  | .null => some .nil
  | .bool b => some (.bool b)
  | .number n => ofNumeral? n
  | .text t => t.map .text
  | .list items => (ofItems? items).map .list
  | .record members => (ofMembers? [] members).map .table

def ofItems? : List Document → Option (List Setting)
  | [] => some []
  | item :: rest => do
    let item ← ofDocument? item
    let rest ← ofItems? rest
    return item :: rest

def ofMembers? (entries : Keyed String Setting) :
    List (Key × Document) → Option (Keyed String Setting)
  | [] => some entries
  | (key, value) :: rest => do
    let key ← key
    let value ← ofDocument? value
    ofMembers? (Keyed.put key value entries) rest

end

def trueWords : List String := ["1", "true", "on", "yes"]

def falseWords : List String := ["0", "false", "off", "no"]

def toBool? : Setting → Option Bool
  | bool b => some b
  | int n => some (n != 0)
  | float x => some !x.isZero
  | text s =>
    if lowerCase s ∈ trueWords then some true
    else if lowerCase s ∈ falseWords then some false
    else none
  | _ => none

def natOfText? (s : String) : Option Nat :=
  let digits :=
    match s.toList with
    | '+' :: rest => rest
    | cs => cs
  if digits = [] ∨ !digits.all Char.isDigit then none
  else some (digitsValue (digits.filterMap digit?))

def toNat64? : Setting → Option Nat
  | bool b => some (if b then 1 else 0)
  | int n => if n < 0 then none else some n.toNat
  | float x => some (x.toNat (word64Limit - 1))
  | text s =>
    if lowerCase s ∈ ["true", "on", "yes"] then some 1
    else if lowerCase s ∈ ["false", "off", "no"] then some 0
    else (natOfText? s).filter (· < word64Limit)
  | _ => none

def toNat32? (s : Setting) : Option Nat := s.toNat64?.filter (· < 4294967296)

def toText? : Setting → Option String
  | text s => some s
  | bool b => some (if b then "true" else "false")
  | int n => some (toString n)
  | float x => some x.text
  | _ => none

def entries : Setting → Keyed String Setting
  | table entries => entries
  | _ => []

def items : Setting → List Setting
  | list items => items
  | _ => []

mutual

/-- Sets one entry of a table, which takes the place of any other setting. A table is merged into
the entry, its names in lower case; any other value replaces the entry. -/
def merge (target : Setting) (key : String) : Setting → Setting
  | .table incoming =>
    let known := (Keyed.get? key target.entries).getD (.table [])
    .table (Keyed.put key (mergeAll known incoming) target.entries)
  | .nil => .table (Keyed.put key .nil target.entries)
  | .bool b => .table (Keyed.put key (.bool b) target.entries)
  | .int n => .table (Keyed.put key (.int n) target.entries)
  | .float x => .table (Keyed.put key (.float x) target.entries)
  | .text s => .table (Keyed.put key (.text s) target.entries)
  | .list items => .table (Keyed.put key (.list items) target.entries)

def mergeAll (target : Setting) : List (String × Setting) → Setting
  | [] => target
  | (key, value) :: rest => mergeAll (merge target (lowerName key) value) rest

end

end Setting

end SctpTrace.Config
