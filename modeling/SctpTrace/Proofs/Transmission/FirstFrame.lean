import SctpTrace.Proofs.Circle
import SctpTrace.Transmission.Tracker

/-!
The frame that first carried a TSN. Recording a chunk sets it for a new TSN and changes nothing
else; a chunk is a retransmission exactly if another frame carried its TSN first.
-/
namespace SctpTrace.Transmission.Half

def Founded (h : Half) : Prop := h.baseline = none → h.records = []

def firstFrame? (h : Half) (t : UInt32) : Option FrameNumber :=
  (h.record? t).map fun r => r.first.frame

variable {h : Half} {tsn t : UInt32} {stamp : Stamp} {cap : Nat}

theorem founded_new (flow : Flow) : (new flow).Founded := fun _ => rfl

theorem founded_transmit : (h.transmit tsn stamp cap).1.Founded := by
  intro absent
  exfalso
  revert absent
  simp only [transmit, recordAt]
  split
  · simp
  · split <;> simp

theorem flow_transmit : (h.transmit tsn stamp cap).1.flow = h.flow := by
  simp only [transmit, recordAt]
  split
  · rfl
  · split <;> rfl

theorem firstFrame?_resent (r : Record) : (r.resent stamp cap).first = r.first := by
  simp only [Record.resent]
  split <;> rfl

theorem record?_eq (tsn : UInt32) (founded : h.Founded) :
    h.record? t =
      Keyed.get? (Serial.distance (h.baseline.getD tsn) t) h.records := by
  cases known : h.baseline with
  | none => simp [record?, relative?, known, founded known]
  | some first => simp [record?, relative?, known]

theorem firstFrame?_recordAt {relative : Nat} {other : Nat} :
    (Keyed.get? other (h.recordAt relative tsn stamp cap).1.records).map (·.first.frame) =
      if other = relative then
        some (((Keyed.get? relative h.records).map (·.first.frame)).getD stamp.frame)
      else (Keyed.get? other h.records).map (·.first.frame) := by
  simp only [recordAt]
  cases known : Keyed.get? relative h.records with
  | none =>
    simp only [Keyed.get?_insertOrdered]
    by_cases same : other = relative
    · subst same
      simp [Record.sent]
    · simp [same, Ne.symm same]
  | some r =>
    simp only
    split
    · by_cases same : other = relative
      · subst same
        simp [known]
      · simp [same]
    · simp only [Keyed.get?_insertOrdered]
      by_cases same : other = relative
      · subst same
        simp [firstFrame?_resent]
      · simp [same, Ne.symm same]

theorem firstFrame?_transmit (founded : h.Founded) :
    (h.transmit tsn stamp cap).1.firstFrame? t =
      if t = tsn then some ((h.firstFrame? tsn).getD stamp.frame) else h.firstFrame? t := by
  have kept : (h.transmit tsn stamp cap).1.baseline = some (h.baseline.getD tsn) := by
    simp only [transmit, recordAt]
    split
    · rfl
    · split <;> rfl
  have place : ∀ u, Serial.distance (h.baseline.getD tsn) u =
      Serial.distance (h.baseline.getD tsn) tsn ↔ u = tsn :=
    fun u => ⟨Serial.distance_inj, fun same => by rw [same]⟩
  have after : (h.transmit tsn stamp cap).1.firstFrame? t =
      (Keyed.get? (Serial.distance (h.baseline.getD tsn) t)
        (h.transmit tsn stamp cap).1.records).map (·.first.frame) := by
    simp [firstFrame?, record?, relative?, kept]
  rw [after, transmit, firstFrame?_recordAt]
  simp only [place, firstFrame?, record?_eq tsn founded]

theorem isRetransmission_transmit (founded : h.Founded) :
    (h.transmit tsn stamp cap).2.isRetransmission =
      (h.firstFrame? tsn).any (fun frame => frame != stamp.frame) := by
  rw [firstFrame?, record?_eq tsn founded]
  simp only [transmit, recordAt]
  cases Keyed.get? (Serial.distance (h.baseline.getD tsn) tsn) h.records with
  | none => rfl
  | some r =>
    simp only
    split
    · rename_i same
      simp [Outcome.isRetransmission, same]
    · rename_i other
      simp [Outcome.isRetransmission, other]

end SctpTrace.Transmission.Half
