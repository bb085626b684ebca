import SctpTrace.Keyed
import SctpTrace.Serial
import SctpTrace.Transmission.Record

/-!
The sending side of one flow. TSNs are kept by their distance from a baseline, the first TSN seen or
announced, so that their order survives the wrap at 2^32.
-/
namespace SctpTrace.Transmission

structure Half where
  flow : Flow
  baseline : Option UInt32
  /-- Records in the order of their distance from the baseline. -/
  records : Keyed Nat Record
  /-- The highest cumulative ack seen, as a distance from the baseline. -/
  cumulative : Option Nat
  /-- The place of the half of the opposite flow. -/
  peer : Option Nat
  deriving DecidableEq, Repr

namespace Half

def new (flow : Flow) : Half := ⟨flow, none, [], none, none⟩

def setBaseline (h : Half) (tsn : UInt32) : Half × Bool :=
  match h.baseline with
  | some _ => (h, false)
  | none => ({ h with baseline := some tsn }, true)

def relative? (h : Half) (tsn : UInt32) : Option Nat :=
  h.baseline.map fun first => Serial.distance first tsn

def record? (h : Half) (tsn : UInt32) : Option Record :=
  (h.relative? tsn).bind fun relative => Keyed.get? relative h.records

/- The first frame that carries a TSN transmits it, every other frame retransmits it. A TSN that
   stands in its first frame twice is not retransmitted. -/
def recordAt (h : Half) (relative : Nat) (tsn : UInt32) (stamp : Stamp) (cap : Nat) :
    Half × Outcome :=
  match Keyed.get? relative h.records with
  | none =>
    ({ h with records := Keyed.insertOrdered relative (.sent tsn stamp) h.records },
      ⟨tsn, relative, none, none, none⟩)
  | some r =>
    if r.first.frame = stamp.frame then (h, ⟨tsn, relative, none, r.ack, r.roundTrip?⟩)
    else
      ({ h with records := Keyed.insertOrdered relative (r.resent stamp cap) h.records },
        ⟨tsn, relative, some (r.retransmission stamp cap), r.ack, r.roundTrip?⟩)

/-- Records a data chunk; the first one sets the baseline. -/
def transmit (h : Half) (tsn : UInt32) (stamp : Stamp) (cap : Nat) : Half × Outcome :=
  let first := h.baseline.getD tsn
  { h with baseline := some first }.recordAt (Serial.distance first tsn) tsn stamp cap

end Half

end SctpTrace.Transmission
