import SctpTrace.Capture
import SctpTrace.Tally

/-!
The life of one TSN: its first transmission, its retransmissions and its first acknowledgement. All
retransmitting frames are counted; at most `cap` of them are retained.
-/
namespace SctpTrace.Transmission

structure Record where
  tsn : UInt32
  first : Stamp
  /-- The retained retransmissions, oldest first. -/
  retransmissions : List Stamp
  retransmissionCount : Nat
  /-- The first acknowledgement; a later one never replaces it. -/
  ack : Option Stamp
  /-- The highest frame that carried the TSN. -/
  lastFrame : FrameNumber
  deriving DecidableEq, Repr

structure Retransmission where
  /-- The first transmission. -/
  first : Stamp
  delay : Option Span
  /-- The number of retransmissions so far, this one included. -/
  count : Nat
  /-- The earlier frame that had acknowledged the TSN already. -/
  afterAckIn : Option FrameNumber
  /-- More retransmissions happened than are retained. -/
  historyTruncated : Bool
  /-- The frame was not counted before for this TSN. -/
  newlyCounted : Bool
  deriving DecidableEq, Repr

structure Outcome where
  tsn : UInt32
  relative : Nat
  retransmission : Option Retransmission
  acked : Option Stamp
  roundTrip : Option Span
  deriving DecidableEq, Repr

def Outcome.isRetransmission (o : Outcome) : Bool := o.retransmission.isSome

def Retransmission.tally (r : Retransmission) : Tally :=
  { retransmissions := if r.newlyCounted then 1 else 0
    reneged := if r.afterAckIn.isSome then 1 else 0 }

def Outcome.tally (o : Outcome) : Tally :=
  match o.retransmission with
  | some r => r.tally
  | none => .zero

namespace Record

def sent (tsn : UInt32) (stamp : Stamp) : Record := ⟨tsn, stamp, [], 0, none, stamp.frame⟩

def roundTrip? (r : Record) : Option Span :=
  r.ack.bind fun ack => r.first.time.spanTo? ack.time

def place? (r : Record) (frame : FrameNumber) : Option Nat :=
  r.retransmissions.findIdx? fun s => s.frame == frame

/-- A frame counts if it is not retained and is later than every frame counted before. -/
def counts (r : Record) (frame : FrameNumber) : Bool :=
  (r.place? frame).isNone && decide (r.lastFrame < frame)

def resent (r : Record) (stamp : Stamp) (cap : Nat) : Record :=
  if r.counts stamp.frame then
    { r with
      retransmissionCount := r.retransmissionCount + 1
      lastFrame := stamp.frame
      retransmissions :=
        if r.retransmissions.length < cap then r.retransmissions ++ [stamp]
        else r.retransmissions }
  else r

def ackBefore? (r : Record) (frame : FrameNumber) : Option FrameNumber :=
  match r.ack with
  | some ack => if ack.frame < frame then some ack.frame else none
  | none => none

def retransmission (r : Record) (stamp : Stamp) (cap : Nat) : Retransmission :=
  let after := r.resent stamp cap
  { first := r.first
    delay := r.first.time.spanTo? stamp.time
    count :=
      match r.place? stamp.frame with
      | some place => place + 1
      | none => after.retransmissionCount
    afterAckIn := r.ackBefore? stamp.frame
    historyTruncated := decide (cap < after.retransmissionCount)
    newlyCounted := r.counts stamp.frame }

/-- Whether an acknowledgement in this frame is the record's first one. -/
def awaits (r : Record) (stamp : Stamp) : Bool :=
  r.ack.isNone && decide (r.first.frame < stamp.frame)

def acknowledged (r : Record) (stamp : Stamp) : Record := { r with ack := some stamp }

end Record

end SctpTrace.Transmission
