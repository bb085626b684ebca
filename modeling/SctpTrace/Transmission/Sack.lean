import SctpTrace.Transmission.Half
import SctpTrace.Wire.Chunk

/-!
What a SACK or NR-SACK does to the half that it acknowledges: the cumulative ack first, then the gap
blocks in their order on the wire, the blocks that may be reneged before those that may not.
-/
namespace SctpTrace.Transmission

open Wire

inductive AckKind where
  | cumulative
  | gap
  | nonRenegableGap
  deriving DecidableEq, Repr

structure Acked where
  tsn : UInt32
  relative : Nat
  sentIn : FrameNumber
  roundTrip : Option Span
  kind : AckKind
  deriving DecidableEq, Repr

inductive GapFault where
  /-- The block starts after its end; it is skipped. -/
  | malformed
  /-- The block does not start after the end of the valid block before it. -/
  | outOfOrder
  deriving DecidableEq, Repr

structure GapIssue where
  fault : GapFault
  index : Nat
  nonRenegable : Bool
  block : GapBlock
  deriving DecidableEq, Repr

structure SackFacts where
  cumulative : UInt32
  nonRenegable : Bool
  acked : List Acked
  issues : List GapIssue
  /-- TSNs in the valid gap blocks that may be reneged, one block after the other. -/
  gapAcked : Nat
  thresholdExceeded : Bool
  duplicates : List UInt32
  deriving DecidableEq, Repr

structure AckLimits where
  /-- The most TSNs that one ack may cover. -/
  span : Nat
  /-- Gap-acked TSNs of one SACK above which it is reported. -/
  gapWarning : Nat
  deriving DecidableEq, Repr

def SackFacts.tally (f : SackFacts) : Tally := { acknowledged := f.acked.length }

namespace Half

def covers (low high : Nat) (stamp : Stamp) (entry : Nat × Record) : Bool :=
  decide (low ≤ entry.1) && decide (entry.1 ≤ high) && entry.2.awaits stamp

def ackEntry (low high : Nat) (stamp : Stamp) (entry : Nat × Record) : Nat × Record :=
  if covers low high stamp entry then (entry.1, entry.2.acknowledged stamp) else entry

def ackedFact (stamp : Stamp) (kind : AckKind) (entry : Nat × Record) : Acked :=
  ⟨entry.2.tsn, entry.1, entry.2.first.frame, (entry.2.acknowledged stamp).roundTrip?, kind⟩

/-- Acknowledges what lies between two distances, waits for an ack and was sent before it. -/
def acknowledge (h : Half) (low high : Nat) (stamp : Stamp) (kind : AckKind) :
    Half × List Acked :=
  ({ h with records := h.records.map (ackEntry low high stamp) },
    (h.records.filter (covers low high stamp)).map (ackedFact stamp kind))

def advance (h : Half) (relative : Nat) : Nat :=
  match h.cumulative with
  | some point => relative - point
  | none => relative + 1

/- A cumulative TSN in the upper half of the circle lies before the baseline and says nothing. An
   ack that advances too far moves the point and acknowledges nothing. -/
def cumulativeAck (h : Half) (limits : AckLimits) (cumulative : UInt32) (stamp : Stamp) :
    Half × List Acked :=
  match h.relative? cumulative with
  | none => (h, [])
  | some relative =>
    if 2147483648 ≤ relative then (h, [])
    else
      let moved := { h with cumulative := some (max (h.cumulative.getD 0) relative) }
      if limits.span < h.advance relative then (moved, [])
      else moved.acknowledge (relative - (limits.span - 1)) relative stamp .cumulative

def gapAck (h : Half) (limits : AckLimits) (cumulative : UInt32) (block : GapBlock)
    (stamp : Stamp) (kind : AckKind) : Half × List Acked :=
  if block.stop < block.start then (h, [])
  else
    match h.relative? cumulative with
    | none => (h, [])
    | some relative =>
      let low := relative + block.start.toNat
      let high := relative + block.stop.toNat
      if 4294967296 ≤ high ∨ limits.span ≤ high - low then (h, [])
      else h.acknowledge low high stamp kind

def gapAcks (limits : AckLimits) (cumulative : UInt32) (stamp : Stamp) (kind : AckKind) :
    Half → List GapBlock → Half × List Acked
  | h, [] => (h, [])
  | h, block :: rest =>
    let (h, first) := h.gapAck limits cumulative block stamp kind
    let (h, later) := gapAcks limits cumulative stamp kind h rest
    (h, first ++ later)

def applySack (h : Half) (limits : AckLimits) (sack : SackChunk) (stamp : Stamp) :
    Half × List Acked :=
  let (h, byPoint) := h.cumulativeAck limits sack.cumulative stamp
  let (h, byGap) := gapAcks limits sack.cumulative stamp .gap h sack.gaps
  let (h, byKept) :=
    gapAcks limits sack.cumulative stamp .nonRenegableGap h sack.nonRenegableGaps
  (h, byPoint ++ byGap ++ byKept)

end Half

def blockIsValid (block : GapBlock) : Bool := decide (block.start ≤ block.stop)

def blockSize (block : GapBlock) : Nat := block.stop.toNat - block.start.toNat + 1

def gapAckedCount (blocks : List GapBlock) : Nat :=
  ((blocks.filter blockIsValid).map blockSize).foldl (· + ·) 0

/- `previous` is the end of the last valid block; a malformed block leaves it as it is. -/
def gapIssuesFrom (nonRenegable : Bool) (index : Nat) (previous : Option UInt16) :
    List GapBlock → List GapIssue
  | [] => []
  | block :: rest =>
    if blockIsValid block then
      let later := gapIssuesFrom nonRenegable (index + 1) (some block.stop) rest
      match previous with
      | some stop =>
        if block.start ≤ stop then ⟨.outOfOrder, index, nonRenegable, block⟩ :: later else later
      | none => later
    else
      ⟨.malformed, index, nonRenegable, block⟩ ::
        gapIssuesFrom nonRenegable (index + 1) previous rest

def gapIssues (sack : SackChunk) : List GapIssue :=
  gapIssuesFrom false 0 none sack.gaps ++ gapIssuesFrom true 0 none sack.nonRenegableGaps

def sackFacts (limits : AckLimits) (sack : SackChunk) (nonRenegable : Bool)
    (acked : List Acked) : SackFacts :=
  let gapAcked := gapAckedCount sack.gaps
  ⟨sack.cumulative, nonRenegable, acked, gapIssues sack, gapAcked,
    decide (limits.gapWarning < gapAcked), sack.duplicates⟩

def Half.sack (h : Half) (limits : AckLimits) (sack : SackChunk) (nonRenegable : Bool)
    (stamp : Stamp) : Half × SackFacts :=
  let (after, acked) := h.applySack limits sack stamp
  (after, sackFacts limits sack nonRenegable acked)

end SctpTrace.Transmission
