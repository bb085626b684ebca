import SctpTrace.Transmission.Sack

/-!
The halves of all flows, found by their flow and named by their place. The halves of the two flows
of an association are peers as soon as both exist.
-/
namespace SctpTrace.Transmission

structure Tracker where
  halves : List Half
  deriving DecidableEq, Repr

namespace Tracker

def empty : Tracker := ⟨[]⟩

def find? (t : Tracker) (flow : Flow) : Option Nat :=
  t.halves.findIdx? fun h => h.flow == flow

def half? (t : Tracker) (id : Nat) : Option Half := t.halves[id]?

def setHalf (t : Tracker) (id : Nat) (h : Half) : Tracker := ⟨t.halves.set id h⟩

def link (t : Tracker) (id : Nat) (peer : Option Nat) : Tracker :=
  match peer with
  | none => t
  | some p => ⟨t.halves.modify p fun h => { h with peer := some id }⟩

def ensure (t : Tracker) (flow : Flow) : Tracker × Nat :=
  match t.find? flow with
  | some id => (t, id)
  | none =>
    let id := t.halves.length
    let peer := t.find? flow.opposite
    (⟨(t.link id peer).halves ++ [{ Half.new flow with peer := peer }]⟩, id)

def peer? (t : Tracker) (id : Nat) : Option Nat := (t.half? id).bind (·.peer)

def transmit (t : Tracker) (id : Nat) (tsn : UInt32) (stamp : Stamp) (cap : Nat) :
    Tracker × Option Outcome :=
  match t.half? id with
  | none => (t, none)
  | some h =>
    let (h, outcome) := h.transmit tsn stamp cap
    (t.setHalf id h, some outcome)

def setBaseline (t : Tracker) (id : Nat) (tsn : UInt32) : Tracker × Option Bool :=
  match t.half? id with
  | none => (t, none)
  | some h =>
    let (h, isNew) := h.setBaseline tsn
    (t.setHalf id h, some isNew)

/-- Processes a SACK for the half at a place. Without that half only the chunk's own fields are
checked. -/
def sack (t : Tracker) (acknowledged : Option Nat) (limits : AckLimits) (chunk : Wire.SackChunk)
    (nonRenegable : Bool) (stamp : Stamp) : Tracker × SackFacts :=
  match acknowledged.bind fun id => (t.half? id).map fun h => (id, h) with
  | none => (t, sackFacts limits chunk nonRenegable [])
  | some (id, h) =>
    let (h, facts) := h.sack limits chunk nonRenegable stamp
    (t.setHalf id h, facts)

end Tracker

end SctpTrace.Transmission
