import SctpTrace.Proofs.Circle
import SctpTrace.Transmission.Tracker

/-!
All TSNs turned by `k` on the circle. Tracking sees TSNs by their distance from the baseline alone, so
each step of it commutes with the turn.
-/
namespace SctpTrace

/- Values changed under their keys. -/

def Keyed.mapValues {κ α β : Type} (f : α → β) (entries : Keyed κ α) : Keyed κ β :=
  entries.map fun e => (e.1, f e.2)

theorem Keyed.get?_mapValues {κ α β : Type} [DecidableEq κ] (f : α → β) (key : κ)
    (entries : Keyed κ α) : get? key (mapValues f entries) = (get? key entries).map f := by
  induction entries with
  | nil => rfl
  | cons entry rest ih =>
    simp only [mapValues, List.map_cons, get?]
    split
    · rfl
    · exact ih

theorem Keyed.insertOrdered_mapValues {α β : Type} (f : α → β) (key : Nat) (value : α)
    (entries : Keyed Nat α) :
    insertOrdered key (f value) (mapValues f entries) =
      mapValues f (insertOrdered key value entries) := by
  induction entries with
  | nil => rfl
  | cons entry rest ih =>
    simp only [mapValues, List.map_cons, insertOrdered] at ih ⊢
    split
    · rfl
    · split
      · rfl
      · rw [List.map_cons, ih]

namespace Wire

def SackChunk.shift (k : UInt32) (c : SackChunk) : SackChunk :=
  { c with cumulative := c.cumulative + k, duplicates := c.duplicates.map (· + k) }

end Wire

namespace Transmission

def Record.shift (k : UInt32) (r : Record) : Record := { r with tsn := r.tsn + k }

def Outcome.shift (k : UInt32) (o : Outcome) : Outcome := { o with tsn := o.tsn + k }

def Acked.shift (k : UInt32) (a : Acked) : Acked := { a with tsn := a.tsn + k }

def SackFacts.shift (k : UInt32) (f : SackFacts) : SackFacts :=
  { f with
    cumulative := f.cumulative + k
    acked := f.acked.map (Acked.shift k)
    duplicates := f.duplicates.map (· + k) }

def Half.shift (k : UInt32) (h : Half) : Half :=
  { h with
    baseline := h.baseline.map (· + k)
    records := Keyed.mapValues (Record.shift k) h.records }

def Tracker.shift (k : UInt32) (t : Tracker) : Tracker := ⟨t.halves.map (Half.shift k)⟩

variable {k tsn : UInt32} {stamp : Stamp} {cap : Nat} {limits : AckLimits}

theorem Record.resent_shift (r : Record) :
    (r.shift k).resent stamp cap = (r.resent stamp cap).shift k := by
  have same : (r.shift k).counts stamp.frame = r.counts stamp.frame := rfl
  rw [resent, resent, same]
  split <;> rfl

theorem Record.retransmission_shift (r : Record) :
    (r.shift k).retransmission stamp cap = r.retransmission stamp cap := by
  simp only [retransmission, resent_shift]
  rfl

namespace Half

variable {h : Half}

theorem relative?_shift : (h.shift k).relative? (tsn + k) = h.relative? tsn := by
  simp only [relative?, shift, Option.map_map]
  congr 1
  funext first
  exact Serial.distance_add_right first tsn k

theorem setBaseline_shift :
    (h.shift k).setBaseline (tsn + k) =
      ((h.setBaseline tsn).1.shift k, (h.setBaseline tsn).2) := by
  cases known : h.baseline <;> simp [setBaseline, shift, known]

theorem recordAt_shift (relative : Nat) :
    (h.shift k).recordAt relative (tsn + k) stamp cap =
      ((h.recordAt relative tsn stamp cap).1.shift k,
        (h.recordAt relative tsn stamp cap).2.shift k) := by
  have known : Keyed.get? relative (h.shift k).records =
      (Keyed.get? relative h.records).map (Record.shift k) := Keyed.get?_mapValues _ _ _
  simp only [recordAt, known]
  cases Keyed.get? relative h.records with
  | none =>
    have sent : Record.sent (tsn + k) stamp = (Record.sent tsn stamp).shift k := rfl
    simp only [Option.map_none, sent, shift, Keyed.insertOrdered_mapValues]
    rfl
  | some r =>
    have first : (r.shift k).first = r.first := rfl
    simp only [Option.map_some, first]
    split
    · rfl
    · simp only [Record.resent_shift, Record.retransmission_shift, shift,
        Keyed.insertOrdered_mapValues]
      rfl

theorem transmit_shift :
    (h.shift k).transmit (tsn + k) stamp cap =
      ((h.transmit tsn stamp cap).1.shift k, (h.transmit tsn stamp cap).2.shift k) := by
  have first : (h.shift k).baseline.getD (tsn + k) = h.baseline.getD tsn + k := by
    cases known : h.baseline <;> simp [shift, known]
  have founded : { h.shift k with baseline := some ((h.shift k).baseline.getD (tsn + k)) } =
      shift k { h with baseline := some (h.baseline.getD tsn) } := by
    rw [first]
    rfl
  rw [transmit, founded, first, Serial.distance_add_right, recordAt_shift]
  rfl

theorem acknowledge_shift (low high : Nat) (kind : AckKind) :
    (h.shift k).acknowledge low high stamp kind =
      ((h.acknowledge low high stamp kind).1.shift k,
        (h.acknowledge low high stamp kind).2.map (Acked.shift k)) := by
  have covered : covers low high stamp ∘ (fun e : Nat × Record => (e.1, e.2.shift k)) =
      covers low high stamp := rfl
  have entry : ∀ e : Nat × Record, ackEntry low high stamp (e.1, e.2.shift k) =
      ((ackEntry low high stamp e).1, (ackEntry low high stamp e).2.shift k) := by
    intro e
    have same : covers low high stamp (e.1, e.2.shift k) = covers low high stamp e := rfl
    rw [ackEntry, ackEntry, same]
    split <;> rfl
  simp only [acknowledge, shift, Keyed.mapValues, List.filter_map, List.map_map, covered]
  refine Prod.ext ?_ rfl
  simp only [Half.mk.injEq, true_and, and_true]
  apply List.map_congr_left
  intro e _
  exact entry e

theorem cumulativeAck_shift (cumulative : UInt32) :
    (h.shift k).cumulativeAck limits (cumulative + k) stamp =
      ((h.cumulativeAck limits cumulative stamp).1.shift k,
        (h.cumulativeAck limits cumulative stamp).2.map (Acked.shift k)) := by
  simp only [cumulativeAck, relative?_shift]
  cases h.relative? cumulative with
  | none => rfl
  | some relative =>
    have advance : (h.shift k).advance relative = h.advance relative := rfl
    simp only [advance]
    split
    · rfl
    · split
      · rfl
      · exact acknowledge_shift
          (h := { h with cumulative := some (max (h.cumulative.getD 0) relative) }) _ _ _

theorem gapAck_shift (cumulative : UInt32) (block : Wire.GapBlock) (kind : AckKind) :
    (h.shift k).gapAck limits (cumulative + k) block stamp kind =
      ((h.gapAck limits cumulative block stamp kind).1.shift k,
        (h.gapAck limits cumulative block stamp kind).2.map (Acked.shift k)) := by
  simp only [gapAck, relative?_shift]
  split
  · rfl
  · cases h.relative? cumulative with
    | none => rfl
    | some relative =>
      simp only
      split
      · rfl
      · exact acknowledge_shift _ _ _

theorem gapAcks_shift (cumulative : UInt32) (kind : AckKind) (blocks : List Wire.GapBlock) :
    gapAcks limits (cumulative + k) stamp kind (h.shift k) blocks =
      ((gapAcks limits cumulative stamp kind h blocks).1.shift k,
        (gapAcks limits cumulative stamp kind h blocks).2.map (Acked.shift k)) := by
  induction blocks generalizing h with
  | nil => rfl
  | cons block rest ih => simp only [gapAcks, gapAck_shift, ih, List.map_append]

theorem sack_shift (chunk : Wire.SackChunk) (nonRenegable : Bool) :
    (h.shift k).sack limits (chunk.shift k) nonRenegable stamp =
      ((h.sack limits chunk nonRenegable stamp).1.shift k,
        (h.sack limits chunk nonRenegable stamp).2.shift k) := by
  have cumulative : (chunk.shift k).cumulative = chunk.cumulative + k := rfl
  have gaps : (chunk.shift k).gaps = chunk.gaps := rfl
  have kept : (chunk.shift k).nonRenegableGaps = chunk.nonRenegableGaps := rfl
  simp only [sack, applySack, cumulative, gaps, kept, cumulativeAck_shift, gapAcks_shift,
    ← List.map_append]
  rfl

end Half

namespace Tracker

variable {t : Tracker}

theorem find?_shift (flow : Flow) : (t.shift k).find? flow = t.find? flow := by
  simp only [find?, shift, List.findIdx?_map]
  rfl

theorem half?_shift (id : Nat) : (t.shift k).half? id = (t.half? id).map (Half.shift k) := by
  simp only [half?, shift, List.getElem?_map]

theorem peer?_shift (id : Nat) : (t.shift k).peer? id = t.peer? id := by
  rw [peer?, peer?, half?_shift]
  cases t.half? id <;> rfl

theorem setHalf_shift (id : Nat) (h : Half) :
    (t.shift k).setHalf id (h.shift k) = (t.setHalf id h).shift k := by
  simp only [setHalf, shift, List.map_set]

theorem link_shift (id : Nat) (peer : Option Nat) :
    (t.shift k).link id peer = (t.link id peer).shift k := by
  cases peer with
  | none => rfl
  | some p =>
    simp only [link, shift, Tracker.mk.injEq]
    apply List.ext_getElem?
    intro i
    simp only [List.getElem?_map, List.getElem?_modify]
    cases t.halves[i]? <;> split <;> rfl

theorem ensure_shift (flow : Flow) :
    (t.shift k).ensure flow = ((t.ensure flow).1.shift k, (t.ensure flow).2) := by
  have length : (t.shift k).halves.length = t.halves.length := List.length_map _
  simp only [ensure, find?_shift, length, link_shift]
  cases t.find? flow with
  | some id => rfl
  | none =>
    simp only [shift, List.map_append, List.map_cons, List.map_nil]
    rfl

theorem transmit_shift (id : Nat) :
    (t.shift k).transmit id (tsn + k) stamp cap =
      ((t.transmit id tsn stamp cap).1.shift k,
        (t.transmit id tsn stamp cap).2.map (Outcome.shift k)) := by
  simp only [transmit, half?_shift]
  cases t.half? id with
  | none => rfl
  | some h => simp only [Option.map_some, Half.transmit_shift, setHalf_shift]

theorem setBaseline_shift (id : Nat) :
    (t.shift k).setBaseline id (tsn + k) =
      ((t.setBaseline id tsn).1.shift k, (t.setBaseline id tsn).2) := by
  simp only [setBaseline, half?_shift]
  cases t.half? id with
  | none => rfl
  | some h => simp only [Option.map_some, Half.setBaseline_shift, setHalf_shift]

theorem sack_shift (acknowledged : Option Nat) (chunk : Wire.SackChunk) (nonRenegable : Bool) :
    (t.shift k).sack acknowledged limits (chunk.shift k) nonRenegable stamp =
      ((t.sack acknowledged limits chunk nonRenegable stamp).1.shift k,
        (t.sack acknowledged limits chunk nonRenegable stamp).2.shift k) := by
  cases acknowledged with
  | none => rfl
  | some id =>
    simp only [sack, Option.bind_some, half?_shift]
    cases t.half? id with
    | none => rfl
    | some h => simp only [Option.map_some, Half.sack_shift, setHalf_shift]

end Tracker

end Transmission

end SctpTrace
