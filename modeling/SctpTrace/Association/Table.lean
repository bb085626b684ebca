import SctpTrace.Association.Basic
import SctpTrace.Keyed

/-!
The table of associations. It is looked up by ports and both tags when a packet shows both, and
otherwise by ports and one tag. Tag zero is the key of the associations without any tag. What a
frame was resolved to is remembered, so that another pass over it gets the same answer.
-/
namespace SctpTrace

/-- Ports without regard to direction, and one tag. -/
structure SingleKey where
  lowPort : UInt16
  highPort : UInt16
  tag : UInt32
  deriving DecidableEq, Repr

def SingleKey.of (p q : UInt16) (tag : UInt32) : SingleKey :=
  if p ≤ q then ⟨p, q, tag⟩ else ⟨q, p, tag⟩

structure PairKey where
  sourcePort : UInt16
  destinationPort : UInt16
  tags : TagPair
  deriving DecidableEq, Repr

def Association.key (a : Association) : Direction → PairKey
  | .forward => ⟨a.sourcePort, a.destinationPort, ⟨a.destinationTag, a.sourceTag⟩⟩
  | .reverse => ⟨a.destinationPort, a.sourcePort, ⟨a.sourceTag, a.destinationTag⟩⟩

def Observation.key (o : Observation) : PairKey := ⟨o.sourcePort, o.destinationPort, o.tags⟩

def Observation.showsBoth (o : Observation) : Bool := o.destinationTag != 0 && o.sourceTag != 0

/-- The tags under which a packet is looked up: those that it shows, zero if it shows none. -/
def Observation.probes (o : Observation) : List UInt32 :=
  if o.destinationTag = 0 ∧ o.sourceTag = 0 then [0]
  else if o.destinationTag = 0 then [o.sourceTag]
  else if o.sourceTag = 0 ∨ o.sourceTag = o.destinationTag then [o.destinationTag]
  else [o.destinationTag, o.sourceTag]

structure AssociationTable where
  associations : List Association
  /-- Places of the associations that hold a tag, in the order in which they showed it. -/
  single : Keyed SingleKey (List Nat)
  pair : Keyed PairKey Flow
  frames : Keyed FrameNumber Flow
  deriving DecidableEq, Repr

namespace AssociationTable

def empty : AssociationTable := ⟨[], [], [], []⟩

def bucket (t : AssociationTable) (key : SingleKey) : List Nat := (Keyed.get? key t.single).getD []

def candidate? (t : AssociationTable) (o : Observation) (index : Nat) : Option Flow := do
  let a ← t.associations[index]?
  let direction ← a.direction? o
  return ⟨index, direction⟩

def lookupPair? (t : AssociationTable) (o : Observation) : Option Flow :=
  if o.showsBoth then Keyed.get? o.key t.pair else none

def lookupSingle? (t : AssociationTable) (o : Observation) (tag : UInt32) : Option Flow :=
  (t.bucket (.of o.sourcePort o.destinationPort tag)).findSome? (t.candidate? o)

def lookup? (t : AssociationTable) (o : Observation) : Option Flow :=
  (t.lookupPair? o).or (o.probes.findSome? (t.lookupSingle? o))

def registerSingle (t : AssociationTable) (a : Association) (tag : UInt32) : AssociationTable :=
  let key := SingleKey.of a.sourcePort a.destinationPort tag
  let places := t.bucket key
  let places := if a.index ∈ places then places else places ++ [a.index]
  { t with single := Keyed.put key places t.single }

def registerPair (t : AssociationTable) (a : Association) : AssociationTable :=
  let forward := Keyed.put (a.key .forward) ⟨a.index, .forward⟩ t.pair
  { t with pair := Keyed.put (a.key .reverse) ⟨a.index, .reverse⟩ forward }

def fresh (t : AssociationTable) (frame : FrameNumber) (o : Observation) : Association :=
  ⟨t.associations.length, o.sourcePort, o.destinationPort, o.source, o.destination,
    o.destinationTag, o.sourceTag, frame⟩

def introduce (t : AssociationTable) (frame : FrameNumber) (o : Observation) : AssociationTable :=
  let a := t.fresh frame o
  let t := o.probes.foldl (fun t tag => t.registerSingle a tag) t
  let t := if a.isComplete then t.registerPair a else t
  { t with associations := t.associations ++ [a] }

/-- The association with the tags that a packet adds; a known tag is never replaced. -/
def learned (a : Association) (o : Observation) (direction : Direction) : Association :=
  let shown : TagPair :=
    match direction with
    | .forward => o.tags
    | .reverse => ⟨o.sourceTag, o.destinationTag⟩
  { a with
    destinationTag := if a.destinationTag = 0 then shown.destination else a.destinationTag
    sourceTag := if a.sourceTag = 0 then shown.source else a.sourceTag }

def newTags (before after : Association) : List UInt32 :=
  (if before.destinationTag = after.destinationTag then [] else [after.destinationTag]) ++
    (if before.sourceTag = after.sourceTag then [] else [after.sourceTag])

def learn (t : AssociationTable) (found : Flow) (o : Observation) : AssociationTable :=
  match t.associations[found.index]? with
  | none => t
  | some before =>
    let after := learned before o found.direction
    let t := (newTags before after).foldl (fun t tag => t.registerSingle after tag) t
    let t := if after.isComplete && !before.isComplete then t.registerPair after else t
    { t with associations := t.associations.set found.index after }

def assign (t : AssociationTable) (frame : FrameNumber) (o : Observation) :
    AssociationTable × Flow :=
  let (t, flow) :=
    match t.lookup? o with
    | some found => (t.learn found o, found)
    | none => (t.introduce frame o, ⟨t.associations.length, .forward⟩)
  ({ t with frames := Keyed.put frame flow t.frames }, flow)

/-- A frame that was visited before is only looked up; nothing changes, and it may be unresolved. -/
def resolve (t : AssociationTable) (frame : FrameNumber) (visited : Bool) (o : Observation) :
    AssociationTable × Option Flow :=
  match Keyed.get? frame t.frames with
  | some flow => (t, some flow)
  | none =>
    if visited then (t, none)
    else
      let (t, flow) := t.assign frame o
      (t, some flow)

end AssociationTable

end SctpTrace
