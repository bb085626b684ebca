import SctpTrace.Config.Setting

/-!
Names of settings. A name is a path such as `tsn.enabled` or `names[2]` through tables and lists;
what is no path names an entry of the root as it stands.
-/
namespace SctpTrace.Config

inductive PathStep where
  | key (name : String)
  /-- A place in a list, from the end if negative. -/
  | place (index : Int)
  deriving DecidableEq, Repr

abbrev Path := List PathStep

namespace Path

def isNameChar (c : Char) : Bool := c.isAlphanum || c == '_' || c == '-' || c == ' '

def isIndexBlank (c : Char) : Bool := c == ' ' || c == '\t'

def index? (cs : List Char) : Option Int :=
  let (negative, cs) :=
    match cs.dropWhile isIndexBlank with
    | '-' :: rest => (true, rest)
    | rest => (false, rest)
  let (digits, rest) := Json.takeDigits cs
  let size : Int := Json.digitsValue digits
  let index := if negative then -size else size
  if digits = [] ∨ !rest.all isIndexBlank then none
  else if index < Setting.lowest64 ∨ Setting.highest64 < index then none
  else some index

def steps? : Nat → List Char → Option Path
  | _, [] => some []
  | 0, _ => none
  | fuel + 1, '.' :: rest =>
    let name := rest.takeWhile isNameChar
    if name = [] then none
    else (steps? fuel (rest.dropWhile isNameChar)).map (.key (String.ofList name) :: ·)
  | fuel + 1, '[' :: rest =>
    match rest.dropWhile (· != ']') with
    | ']' :: after => do
      let index ← index? (rest.takeWhile (· != ']'))
      let later ← steps? fuel after
      return .place index :: later
    | _ => none
  | _ + 1, _ => none

def parse? (cs : List Char) : Option Path :=
  let name := cs.takeWhile isNameChar
  if name = [] then none
  else
    let rest := cs.dropWhile isNameChar
    (steps? rest.length rest).map (.key (String.ofList name) :: ·)

def ofName (name : String) : Path := (parse? name.toList).getD [.key name]

end Path

namespace Setting

/-- The list with an item at the place that an index names, and that place. Missing items are nil,
at the end or, for a place before the start, at the front. -/
def reach (items : List Setting) (index : Int) : List Setting × Nat :=
  if 0 ≤ index then
    (items ++ List.replicate (index.toNat + 1 - items.length) .nil, index.toNat)
  else
    let back := (-index).toNat
    if back ≤ items.length then (items, items.length - back)
    else (List.replicate (back - items.length) .nil ++ items, 0)

/-- Sets what a path leads to. On the way, a setting of another kind gives way to a table or
list. -/
def set (target : Setting) (value : Setting) : Path → Setting
  | [] => value
  | [.key name] => target.merge name value
  | .key name :: rest =>
    let known := (Keyed.get? name target.entries).getD .nil
    .table (Keyed.put name (known.set value rest) target.entries)
  | .place index :: rest =>
    let (items, place) := reach target.items index
    .list (items.modify place fun known => known.set value rest)

end Setting

end SctpTrace.Config
