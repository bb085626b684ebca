import Mathlib.Data.List.Forall2
import SctpTrace.Proofs.Session.Run
import SctpTrace.Proofs.Translation.Reassembly
import SctpTrace.Proofs.Translation.Transmission

/-!
The chunks of a packet with every TSN turned by `k`. Each chunk is answered the same, up to the turn,
as long as the fragments of a key are all DATA or all I-DATA: the former are ordered by their TSNs, the
latter are not.
-/
namespace SctpTrace

namespace Wire

def InitChunk.shift (k : UInt32) (c : InitChunk) : InitChunk :=
  { c with initialTsn := c.initialTsn + k }

def Chunk.shift (k : UInt32) : Chunk → Chunk
  | .data c => .data { c with tsn := c.tsn + k }
  | .interleaved c => .interleaved { c with tsn := c.tsn + k }
  | .sack c => .sack (c.shift k)
  | .nrSack c => .nrSack (c.shift k)
  | .init c => .init (c.shift k)
  | .initAck c => .initAck (c.shift k)
  | .abort reflected => .abort reflected
  | .shutdownComplete reflected => .shutdownComplete reflected
  | .other code length => .other code length

/-- The same place and header, and the same chunk but for its TSNs. -/
def RawChunk.Turned (k : UInt32) (raw raw' : RawChunk) : Prop :=
  raw'.offset = raw.offset ∧ raw'.header = raw.header ∧
    raw'.decode = raw.decode.map (Chunk.shift k)

instance (k : UInt32) (raw raw' : RawChunk) : Decidable (raw.Turned k raw') :=
  inferInstanceAs (Decidable (_ ∧ _ ∧ _))

end Wire

namespace Session

open Reassembly

/-- I-DATA fragments have numbers of their own. -/
def DataUnit.shift (k : UInt32) (u : DataUnit) : DataUnit :=
  { u with
    tsn := u.tsn + k
    position := if u.interleaved then u.position else u.position + k }

def Finding.shift (k : UInt32) : Finding → Finding
  | .retransmittedAfterAck tsn ackedIn => .retransmittedAfterAck (tsn + k) ackedIn
  | .retransmissionLimit tsn count => .retransmissionLimit (tsn + k) count
  | .duplicateFragment tsn earlierFrame => .duplicateFragment (tsn + k) earlierFrame
  | unchanged => unchanged

def DataFacts.shift (k : UInt32) (f : DataFacts) : DataFacts :=
  { f with
    tsn := f.tsn + k
    transmission := f.transmission.map (Transmission.Outcome.shift k) }

def ChunkFacts.shift (k : UInt32) : ChunkFacts → ChunkFacts
  | .data facts => .data (facts.shift k)
  | .sack facts => .sack (facts.shift k)
  | .init ack initiateTag initialTsn baselineSet =>
    .init ack initiateTag (initialTsn + k) baselineSet
  | unchanged => unchanged

def ChunkReport.shift (k : UInt32) (r : ChunkReport) : ChunkReport :=
  { r with facts := r.facts.shift k, findings := r.findings.map (Finding.shift k) }

def Delivery.joins : Delivery → Bool
  | .reassembled _ _ => true
  | .awaitingFragments => true
  | .partOfMessage _ => true
  | .duplicateFragment _ => true
  | _ => false

def DataFacts.key (f : DataFacts) (header : Wire.CommonHeader) : MessageKey :=
  ⟨header.sourcePort, header.destinationPort, header.verificationTag, f.stream, f.sequence,
    f.unordered⟩

def turnOf (k : UInt32) (interleaved : MessageKey → Bool) (key : MessageKey) : UInt32 :=
  if interleaved key then 0 else k

structure Tables.Turned (k : UInt32) (interleaved : MessageKey → Bool) (tables tables' : Tables) :
    Prop where
  tracker : tables'.tracker = tables.tracker.shift k
  store : tables.store.Turned (turnOf k interleaved) tables'.store

/-- What reassembly has taken of a chunk fits the kind of its key. -/
def Unmixed (interleaved : MessageKey → Bool) (header : Wire.CommonHeader) (facts : ChunkFacts) :
    Prop :=
  ∀ f, facts = .data f → f.delivery.joins = true → interleaved (f.key header) = f.interleaved

def Context.withChecksum (ctx : Context) (checksum : UInt32) : Context :=
  { ctx with header := { ctx.header with checksum := checksum } }

variable {k checksum : UInt32} {interleaved : MessageKey → Bool} {ctx : Context}
  {tables tables' : Tables} {store store' : Store} {u : DataUnit}

theorem joins_deliverFragment : (ctx.deliverFragment store u).delivery.joins = true := by
  simp only [Context.deliverFragment]
  split
  · rfl
  · simp only [Delivery.ofAttempt]
    split <;> rfl

theorem ofAttempt_shift (attempt : Attempt) :
    Delivery.ofAttempt (attempt.shift k) = .ofAttempt attempt := by
  cases attempt <;> rfl

theorem tally_shift (attempt : Attempt) : (attempt.shift k).tally = attempt.tally := by
  cases attempt <;> rfl

structure DeliveryReport.Turned (k : UInt32) (interleaved : MessageKey → Bool)
    (r r' : DeliveryReport) : Prop where
  store : r.store.Turned (turnOf k interleaved) r'.store
  delivery : r'.delivery = r.delivery
  findings : r'.findings = r.findings.map (Finding.shift k)
  tally : r'.tally = r.tally

theorem deliverFragment_turned (turned : store.Turned (turnOf k interleaved) store')
    (known : interleaved (ctx.messageKey u) = u.interleaved) :
    (ctx.deliverFragment store u).Turned k interleaved
      ((ctx.withChecksum checksum).deliverFragment store' (u.shift k)) := by
  have position : (u.shift k).position =
      u.position + turnOf k interleaved (ctx.messageKey u) := by
    simp only [DataUnit.shift, turnOf, known]
    split
    · exact (UInt32.add_zero u.position).symm
    · rfl
  have key : (ctx.withChecksum checksum).messageKey (u.shift k) = ctx.messageKey u := rfl
  have frame : (ctx.withChecksum checksum).stamp = ctx.stamp := rfl
  obtain ⟨added, addition⟩ := turned.add (ctx.messageKey u) u.position u.beginning u.ending u.payload
    ctx.stamp.frame
  obtain ⟨joined, attempt⟩ := added.reassemble (ctx.messageKey u) u.position ctx.stamp.frame
  have beginning : (u.shift k).beginning = u.beginning := rfl
  have ending : (u.shift k).ending = u.ending := rfl
  have payload : (u.shift k).payload = u.payload := rfl
  simp only [Context.deliverFragment, key, frame, position, beginning, ending, payload, addition]
  split
  · exact ⟨added, rfl, rfl, rfl⟩
  · refine ⟨joined, ?_, rfl, ?_⟩
    · rw [attempt, ofAttempt_shift]
    · rw [attempt, tally_shift]

theorem deliver_turned (checksum : UInt32) (turned : store.Turned (turnOf k interleaved) store')
    (known : (ctx.deliver store u).delivery.joins = true →
      interleaved (ctx.messageKey u) = u.interleaved) :
    (ctx.deliver store u).Turned k interleaved
      ((ctx.withChecksum checksum).deliver store' (u.shift k)) := by
  have beginning : (u.shift k).beginning = u.beginning := rfl
  have ending : (u.shift k).ending = u.ending := rfl
  have config : (ctx.withChecksum checksum).config = ctx.config := rfl
  simp only [Context.deliver, beginning, ending, config] at known ⊢
  split
  · exact ⟨turned, rfl, rfl, rfl⟩
  · rename_i several
    split
    · rename_i enabled
      simp only [several, enabled, Bool.false_eq_true, ↓reduceIte] at known
      exact deliverFragment_turned turned (known joins_deliverFragment)
    · split
      · exact ⟨turned, rfl, rfl, rfl⟩
      · exact ⟨turned, rfl, rfl, rfl⟩

theorem transmissionFindings_shift (cap : Nat) (tsn : UInt32)
    (o : Option Transmission.Outcome) :
    transmissionFindings cap (tsn + k) (o.map (Transmission.Outcome.shift k)) =
      (transmissionFindings cap tsn o).map (Finding.shift k) := by
  have same : (o.map (Transmission.Outcome.shift k)).bind (·.retransmission) =
      o.bind (·.retransmission) := by
    cases o <;> rfl
  rw [transmissionFindings, transmissionFindings, same]
  cases o.bind (·.retransmission) with
  | none => rfl
  | some r =>
    simp only [retransmissionFindings, List.map_append]
    congr 1
    · cases r.afterAckIn <;> rfl
    · split <;> rfl

theorem transmit_turned (ctx : Context) (k checksum : UInt32) (tracker : Transmission.Tracker) (tsn : UInt32) :
    (ctx.withChecksum checksum).transmit (tracker.shift k) (tsn + k) =
      ((ctx.transmit tracker tsn).1.shift k,
        (ctx.transmit tracker tsn).2.map (Transmission.Outcome.shift k)) := by
  have sender : (ctx.withChecksum checksum).sender = ctx.sender := rfl
  simp only [Context.transmit, sender]
  cases ctx.sender with
  | none => rfl
  | some id => exact Transmission.Tracker.transmit_shift id

structure Context.Agree (k : UInt32) (interleaved : MessageKey → Bool)
    (result result' : Tables × ChunkReport) : Prop where
  tables : result.1.Turned k interleaved result'.1
  report : result'.2 = result.2.shift k

theorem takeData_turned (turned : tables.Turned k interleaved tables')
    (unmixed : Unmixed interleaved ctx.header (ctx.takeData tables u).2.facts) :
    Context.Agree k interleaved (ctx.takeData tables u)
      ((ctx.withChecksum checksum).takeData tables' (u.shift k)) := by
  have tsn : (u.shift k).tsn = u.tsn + k := rfl
  have config : (ctx.withChecksum checksum).config = ctx.config := rfl
  have sent := transmit_turned ctx k checksum tables.tracker u.tsn
  have again : ((ctx.transmit tables.tracker u.tsn).2.map (Transmission.Outcome.shift k)).any
      (·.isRetransmission) = (ctx.transmit tables.tracker u.tsn).2.any (·.isRetransmission) := by
    cases (ctx.transmit tables.tracker u.tsn).2 <;> rfl
  have tally : (((ctx.transmit tables.tracker u.tsn).2.map (Transmission.Outcome.shift k)).map
      (·.tally)) = (ctx.transmit tables.tracker u.tsn).2.map (·.tally) := by
    cases (ctx.transmit tables.tracker u.tsn).2 <;> rfl
  simp only [Context.takeData, turned.tracker, tsn, config, sent, again, tally,
    transmissionFindings_shift] at unmixed ⊢
  split
  · refine ⟨⟨rfl, turned.store⟩, ?_⟩
    simp only [ChunkReport.shift, ChunkFacts.shift, DataFacts.shift, List.map_append]
    rfl
  · rename_i first
    simp only [first, Bool.false_eq_true, ↓reduceIte] at unmixed
    have delivered := deliver_turned checksum turned.store
      fun joins => unmixed _ rfl joins
    refine ⟨⟨rfl, delivered.store⟩, ?_⟩
    simp only [ChunkReport.shift, ChunkFacts.shift, DataFacts.shift, List.map_append,
      delivered.delivery, delivered.findings, delivered.tally]
    rfl

theorem sackFindings_shift (facts : Transmission.SackFacts) :
    (sackFindings facts).map (Finding.shift k) = sackFindings (facts.shift k) := by
  have issues : (facts.shift k).issues = facts.issues := rfl
  have exceeded : (facts.shift k).thresholdExceeded = facts.thresholdExceeded := rfl
  have gapAcked : (facts.shift k).gapAcked = facts.gapAcked := rfl
  simp only [sackFindings, List.map_append, List.map_map, issues, exceeded, gapAcked]
  congr 1
  by_cases many : facts.thresholdExceeded = true <;> simp [many, Finding.shift]

theorem sackTally_shift (facts : Transmission.SackFacts) : (facts.shift k).tally = facts.tally := by
  simp only [Transmission.SackFacts.tally, Transmission.SackFacts.shift, List.length_map]

theorem takeSack_turned (turned : tables.Turned k interleaved tables') (chunk : Wire.SackChunk)
    (nonRenegable : Bool) :
    Context.Agree k interleaved (ctx.takeSack tables chunk nonRenegable)
      ((ctx.withChecksum checksum).takeSack tables' (chunk.shift k) nonRenegable) := by
  have config : (ctx.withChecksum checksum).config = ctx.config := rfl
  have sender : (ctx.withChecksum checksum).sender = ctx.sender := rfl
  have stamp : (ctx.withChecksum checksum).stamp = ctx.stamp := rfl
  have peer : (tables.tracker.shift k).peer? = tables.tracker.peer? := by
    funext id
    exact Transmission.Tracker.peer?_shift id
  simp only [Context.takeSack, config, sender, stamp, turned.tracker, peer,
    Transmission.Tracker.sack_shift]
  refine ⟨⟨rfl, turned.store⟩, ?_⟩
  simp only [ChunkReport.shift, ChunkFacts.shift, sackFindings_shift, sackTally_shift]

theorem takeInit_turned (turned : tables.Turned k interleaved tables') (chunk : Wire.InitChunk)
    (ack : Bool) :
    Context.Agree k interleaved (ctx.takeInit tables chunk ack)
      ((ctx.withChecksum checksum).takeInit tables' (chunk.shift k) ack) := by
  have sender : (ctx.withChecksum checksum).sender = ctx.sender := rfl
  have tsn : (chunk.shift k).initialTsn = chunk.initialTsn + k := rfl
  simp only [Context.takeInit, sender, tsn, turned.tracker]
  cases ctx.sender with
  | none => exact ⟨⟨rfl, turned.store⟩, rfl⟩
  | some id =>
    simp only [Transmission.Tracker.setBaseline_shift]
    exact ⟨⟨rfl, turned.store⟩, rfl⟩

theorem takeChunk_turned (turned : tables.Turned k interleaved tables') (chunk : Wire.Chunk)
    (unmixed : Unmixed interleaved ctx.header (ctx.takeChunk tables chunk).2.facts) :
    Context.Agree k interleaved (ctx.takeChunk tables chunk)
      ((ctx.withChecksum checksum).takeChunk tables' (chunk.shift k)) := by
  cases chunk with
  | data c => exact takeData_turned turned unmixed
  | interleaved c => exact takeData_turned turned unmixed
  | sack c => exact takeSack_turned turned c false
  | nrSack c => exact takeSack_turned turned c true
  | init c => exact takeInit_turned turned c false
  | initAck c => exact takeInit_turned turned c true
  | abort reflected => exact ⟨turned, rfl⟩
  | shutdownComplete reflected => exact ⟨turned, rfl⟩
  | other code length => exact ⟨turned, rfl⟩

theorem takeRaw_turned (checksum : UInt32) (turned : tables.Turned k interleaved tables') {raw raw' : Wire.RawChunk}
    (same : raw.Turned k raw')
    (unmixed : Unmixed interleaved ctx.header (ctx.takeRaw tables raw).2.facts) :
    Context.Agree k interleaved (ctx.takeRaw tables raw)
      ((ctx.withChecksum checksum).takeRaw tables' raw') := by
  obtain ⟨offset, header, decode⟩ := same
  simp only [Context.takeRaw, decode] at unmixed ⊢
  cases decoded : raw.decode with
  | ok chunk =>
    rw [decoded] at unmixed
    exact takeChunk_turned turned chunk unmixed
  | error reason =>
    refine ⟨turned, ?_⟩
    simp only [Except.map, malformedReport, offset, header]
    rfl

theorem takeAll_turned (turned : tables.Turned k interleaved tables')
    {chunks chunks' : List Wire.RawChunk}
    (same : List.Forall₂ (Wire.RawChunk.Turned k) chunks chunks')
    (unmixed : ∀ r ∈ (ctx.takeAll tables chunks).2, Unmixed interleaved ctx.header r.facts) :
    (ctx.takeAll tables chunks).1.Turned k interleaved
        ((ctx.withChecksum checksum).takeAll tables' chunks').1 ∧
      ((ctx.withChecksum checksum).takeAll tables' chunks').2 =
        (ctx.takeAll tables chunks).2.map (ChunkReport.shift k) := by
  induction same generalizing tables tables' with
  | nil => exact ⟨turned, rfl⟩
  | cons here later ih =>
    rw [Context.takeAll_cons] at unmixed
    have first := takeRaw_turned checksum turned here
      (unmixed _ List.mem_cons_self)
    obtain ⟨rest, reports⟩ := ih first.tables fun r there => unmixed r (List.mem_cons_of_mem _ there)
    rw [Context.takeAll_cons, Context.takeAll_cons]
    refine ⟨rest, ?_⟩
    rw [List.map_cons, first.report, reports]

end Session

end SctpTrace
