import SctpTrace.Proofs.Isolation.Halves
import SctpTrace.Proofs.Session.Run

/-!
The chunks of one packet under the traffic of some port pairs. The reports name no association and
no half, so that they are the same with and without other traffic.
-/
namespace SctpTrace

open Reassembly Session Transmission

def Reassembly.MessageKey.ports (key : MessageKey) : Sym2 UInt16 :=
  s(key.sourcePort, key.destinationPort)

def Wire.CommonHeader.ports (header : Wire.CommonHeader) : Sym2 UInt16 :=
  s(header.sourcePort, header.destinationPort)

namespace Isolation

def StoreSim (S : Set (Sym2 UInt16)) (small big : Store) : Prop :=
  ∀ key, key.ports ∈ S → big.fragments? key = small.fragments? key

structure TablesSim (S : Set (Sym2 UInt16)) (places spots : List Nat) (bound : Nat)
    (small big : Tables) : Prop where
  tracker : TrackerSim places spots bound small.tracker big.tracker
  store : StoreSim S small.store big.store

variable {S : Set (Sym2 UInt16)} {places spots : List Nat} {bound : Nat}

namespace StoreSim

variable {small big : Store} {key : MessageKey}

theorem put (sim : StoreSim S small big) (key : MessageKey) (known : Fragments) :
    StoreSim S ⟨Keyed.put key known small.entries⟩ ⟨Keyed.put key known big.entries⟩ := by
  intro other inside
  simp only [Store.fragments?, Keyed.get?_put]
  split
  · rfl
  · exact sim other inside

theorem put_other (sim : StoreSim S small big) (outside : key.ports ∉ S) (known : Fragments) :
    StoreSim S small ⟨Keyed.put key known big.entries⟩ := by
  intro other inside
  have apart : key ≠ other := by
    rintro rfl
    exact outside inside
  simp only [Store.fragments?, Keyed.get?_put, if_neg apart]
  exact sim other inside

theorem add (sim : StoreSim S small big) (inside : key.ports ∈ S) (position : UInt32)
    (isFirst isLast : Bool) (payload : Bytes) (frame : FrameNumber) :
    StoreSim S (small.add key position isFirst isLast payload frame).1
        (big.add key position isFirst isLast payload frame).1 ∧
      (big.add key position isFirst isLast payload frame).2 =
        (small.add key position isFirst isLast payload frame).2 := by
  rw [Store.add, Store.add, sim key inside]
  exact ⟨sim.put key _, rfl⟩

theorem add_other (sim : StoreSim S small big) (outside : key.ports ∉ S) (position : UInt32)
    (isFirst isLast : Bool) (payload : Bytes) (frame : FrameNumber) :
    StoreSim S small (big.add key position isFirst isLast payload frame).1 :=
  sim.put_other outside _

theorem reassemble (sim : StoreSim S small big) (inside : key.ports ∈ S) (position : UInt32)
    (frame : FrameNumber) :
    StoreSim S (small.reassemble key position frame).1 (big.reassemble key position frame).1 ∧
      (big.reassemble key position frame).2 = (small.reassemble key position frame).2 := by
  rw [Store.reassemble, Store.reassemble, sim key inside]
  cases small.fragments? key with
  | none => exact ⟨sim, rfl⟩
  | some known => exact ⟨sim.put key _, rfl⟩

theorem reassemble_other (sim : StoreSim S small big) (outside : key.ports ∉ S)
    (position : UInt32) (frame : FrameNumber) :
    StoreSim S small (big.reassemble key position frame).1 := by
  rw [Store.reassemble]
  cases big.fragments? key with
  | none => exact sim
  | some known => exact sim.put_other outside _

theorem deliverFragment (sim : StoreSim S small big) {ctx : Context}
    (inside : ctx.header.ports ∈ S) (data : DataUnit) :
    StoreSim S (ctx.deliverFragment small data).store (ctx.deliverFragment big data).store ∧
      ctx.deliverFragment big data =
        { ctx.deliverFragment small data with store := (ctx.deliverFragment big data).store } := by
  have key : (ctx.messageKey data).ports ∈ S := inside
  obtain ⟨stored, addition⟩ := sim.add key data.position data.beginning data.ending data.payload
    ctx.stamp.frame
  obtain ⟨joined, attempt⟩ := stored.reassemble key data.position ctx.stamp.frame
  simp only [Context.deliverFragment, addition]
  split
  · exact ⟨stored, rfl⟩
  · refine ⟨joined, ?_⟩
    rw [attempt]

theorem deliverFragment_other (sim : StoreSim S small big) {ctx : Context}
    (outside : ctx.header.ports ∉ S) (data : DataUnit) :
    StoreSim S small (ctx.deliverFragment big data).store := by
  have key : (ctx.messageKey data).ports ∉ S := outside
  have stored := sim.add_other key data.position data.beginning data.ending data.payload
    ctx.stamp.frame
  simp only [Context.deliverFragment]
  split
  · exact stored
  · exact stored.reassemble_other key data.position ctx.stamp.frame

theorem deliver (sim : StoreSim S small big) {ctx : Context} (inside : ctx.header.ports ∈ S)
    (data : DataUnit) :
    StoreSim S (ctx.deliver small data).store (ctx.deliver big data).store ∧
      ctx.deliver big data =
        { ctx.deliver small data with store := (ctx.deliver big data).store } := by
  unfold Context.deliver
  split
  · exact ⟨sim, rfl⟩
  · split
    · exact sim.deliverFragment inside data
    · split
      · exact ⟨sim, rfl⟩
      · exact ⟨sim, rfl⟩

theorem deliver_other (sim : StoreSim S small big) {ctx : Context} (outside : ctx.header.ports ∉ S)
    (data : DataUnit) : StoreSim S small (ctx.deliver big data).store := by
  unfold Context.deliver
  split
  · exact sim
  · split
    · exact sim.deliverFragment_other outside data
    · split
      · exact sim
      · exact sim

end StoreSim

namespace TablesSim

variable {small big : Tables} {ctx : Context} {sender : Option Nat}

theorem transmit (sim : TablesSim S places spots bound small big)
    (same : Option.Rel (At spots) ctx.sender sender) (tsn : UInt32) :
    TrackerSim places spots bound (ctx.transmit small.tracker tsn).1
        (Context.transmit { ctx with sender := sender } big.tracker tsn).1 ∧
      (Context.transmit { ctx with sender := sender } big.tracker tsn).2 =
        (ctx.transmit small.tracker tsn).2 := by
  obtain ⟨config, header, stamp, mine⟩ := ctx
  cases same with
  | none => exact ⟨sim.tracker, rfl⟩
  | some there => exact sim.tracker.transmit there tsn _

theorem transmit_other (sim : TablesSim S places spots bound small big)
    (foreign : ∀ i, ctx.sender = some i → i ∉ spots) (tsn : UInt32) :
    TrackerSim places spots bound small.tracker (ctx.transmit big.tracker tsn).1 := by
  unfold Context.transmit
  split
  · exact sim.tracker
  · rename_i i found
    exact sim.tracker.transmit_other (foreign i found) tsn _

theorem takeData (sim : TablesSim S places spots bound small big)
    (inside : ctx.header.ports ∈ S) (same : Option.Rel (At spots) ctx.sender sender)
    (data : DataUnit) :
    TablesSim S places spots bound (ctx.takeData small data).1
        (Context.takeData { ctx with sender := sender } big data).1 ∧
      (Context.takeData { ctx with sender := sender } big data).2 =
        (ctx.takeData small data).2 := by
  obtain ⟨tracker, outcome⟩ := sim.transmit same data.tsn
  obtain ⟨store, delivered⟩ := sim.store.deliver inside data
  have delivered' : Context.deliver { ctx with sender := sender } big.store data =
      { ctx.deliver small.store data with store := (ctx.deliver big.store data).store } := delivered
  simp only [Context.takeData, outcome, delivered']
  split
  · exact ⟨⟨tracker, sim.store⟩, rfl⟩
  · exact ⟨⟨tracker, store⟩, rfl⟩

theorem takeData_other (sim : TablesSim S places spots bound small big)
    (outside : ctx.header.ports ∉ S) (foreign : ∀ i, ctx.sender = some i → i ∉ spots)
    (data : DataUnit) : TablesSim S places spots bound small (ctx.takeData big data).1 := by
  have tracker := sim.transmit_other foreign data.tsn
  simp only [Context.takeData]
  split
  · exact ⟨tracker, sim.store⟩
  · exact ⟨tracker, sim.store.deliver_other outside data⟩

theorem takeSack (sim : TablesSim S places spots bound small big)
    (same : Option.Rel (At spots) ctx.sender sender) (chunk : Wire.SackChunk)
    (nonRenegable : Bool) :
    TablesSim S places spots bound (ctx.takeSack small chunk nonRenegable).1
        (Context.takeSack { ctx with sender := sender } big chunk nonRenegable).1 ∧
      (Context.takeSack { ctx with sender := sender } big chunk nonRenegable).2 =
        (ctx.takeSack small chunk nonRenegable).2 := by
  obtain ⟨config, header, stamp, mine⟩ := ctx
  have acknowledged : Option.Rel (At spots) (mine.bind small.tracker.peer?)
      (sender.bind big.tracker.peer?) := by
    cases same with
    | none => exact .none
    | some there => exact sim.tracker.peer? there
  obtain ⟨tracker, facts⟩ := sim.tracker.sack acknowledged config.ackLimits chunk
    nonRenegable stamp
  simp only [Context.takeSack, facts]
  exact ⟨⟨tracker, sim.store⟩, trivial⟩

theorem takeSack_other (sim : TablesSim S places spots bound small big)
    (foreign : ∀ i, ctx.sender = some i → i ∉ spots) (chunk : Wire.SackChunk)
    (nonRenegable : Bool) :
    TablesSim S places spots bound small (ctx.takeSack big chunk nonRenegable).1 := by
  refine ⟨sim.tracker.sack_other ?_ ctx.config.ackLimits chunk nonRenegable ctx.stamp,
    sim.store⟩
  intro p found
  obtain ⟨i, mine, peer⟩ := Option.bind_eq_some_iff.mp found
  exact sim.tracker.peer?_other (foreign i mine) peer

theorem takeInit (sim : TablesSim S places spots bound small big)
    (same : Option.Rel (At spots) ctx.sender sender) (chunk : Wire.InitChunk) (ack : Bool) :
    TablesSim S places spots bound (ctx.takeInit small chunk ack).1
        (Context.takeInit { ctx with sender := sender } big chunk ack).1 ∧
      (Context.takeInit { ctx with sender := sender } big chunk ack).2 =
        (ctx.takeInit small chunk ack).2 := by
  obtain ⟨config, header, stamp, mine⟩ := ctx
  cases same with
  | none => exact ⟨⟨sim.tracker, sim.store⟩, rfl⟩
  | some there =>
    obtain ⟨tracker, set⟩ := sim.tracker.setBaseline there chunk.initialTsn
    simp only [Context.takeInit, set]
    exact ⟨⟨tracker, sim.store⟩, trivial⟩

theorem takeInit_other (sim : TablesSim S places spots bound small big)
    (foreign : ∀ i, ctx.sender = some i → i ∉ spots) (chunk : Wire.InitChunk) (ack : Bool) :
    TablesSim S places spots bound small (ctx.takeInit big chunk ack).1 := by
  cases mine : ctx.sender with
  | none =>
    simp only [Context.takeInit, mine]
    exact ⟨sim.tracker, sim.store⟩
  | some i =>
    simp only [Context.takeInit, mine]
    exact ⟨sim.tracker.setBaseline_other (foreign i mine) chunk.initialTsn, sim.store⟩

theorem takeChunk (sim : TablesSim S places spots bound small big)
    (inside : ctx.header.ports ∈ S) (same : Option.Rel (At spots) ctx.sender sender)
    (chunk : Wire.Chunk) :
    TablesSim S places spots bound (ctx.takeChunk small chunk).1
        (Context.takeChunk { ctx with sender := sender } big chunk).1 ∧
      (Context.takeChunk { ctx with sender := sender } big chunk).2 =
        (ctx.takeChunk small chunk).2 := by
  cases chunk with
  | data c => exact sim.takeData inside same _
  | interleaved c => exact sim.takeData inside same _
  | sack c => exact sim.takeSack same c false
  | nrSack c => exact sim.takeSack same c true
  | init c => exact sim.takeInit same c false
  | initAck c => exact sim.takeInit same c true
  | abort reflected => exact ⟨sim, rfl⟩
  | shutdownComplete reflected => exact ⟨sim, rfl⟩
  | other code length => exact ⟨sim, rfl⟩

theorem takeChunk_other (sim : TablesSim S places spots bound small big)
    (outside : ctx.header.ports ∉ S) (foreign : ∀ i, ctx.sender = some i → i ∉ spots)
    (chunk : Wire.Chunk) : TablesSim S places spots bound small (ctx.takeChunk big chunk).1 := by
  cases chunk with
  | data c => exact sim.takeData_other outside foreign _
  | interleaved c => exact sim.takeData_other outside foreign _
  | sack c => exact sim.takeSack_other foreign c false
  | nrSack c => exact sim.takeSack_other foreign c true
  | init c => exact sim.takeInit_other foreign c false
  | initAck c => exact sim.takeInit_other foreign c true
  | abort reflected => exact sim
  | shutdownComplete reflected => exact sim
  | other code length => exact sim

theorem takeRaw (sim : TablesSim S places spots bound small big)
    (inside : ctx.header.ports ∈ S) (same : Option.Rel (At spots) ctx.sender sender)
    (raw : Wire.RawChunk) :
    TablesSim S places spots bound (ctx.takeRaw small raw).1
        (Context.takeRaw { ctx with sender := sender } big raw).1 ∧
      (Context.takeRaw { ctx with sender := sender } big raw).2 = (ctx.takeRaw small raw).2 := by
  unfold Context.takeRaw
  cases raw.decode with
  | ok chunk => exact sim.takeChunk inside same chunk
  | error reason => exact ⟨sim, rfl⟩

theorem takeRaw_other (sim : TablesSim S places spots bound small big)
    (outside : ctx.header.ports ∉ S) (foreign : ∀ i, ctx.sender = some i → i ∉ spots)
    (raw : Wire.RawChunk) : TablesSim S places spots bound small (ctx.takeRaw big raw).1 := by
  unfold Context.takeRaw
  cases raw.decode with
  | ok chunk => exact sim.takeChunk_other outside foreign chunk
  | error reason => exact sim

theorem takeAll (sim : TablesSim S places spots bound small big) (ctx : Context)
    (inside : ctx.header.ports ∈ S) (same : Option.Rel (At spots) ctx.sender sender)
    (chunks : List Wire.RawChunk) :
    TablesSim S places spots bound (ctx.takeAll small chunks).1
        (Context.takeAll { ctx with sender := sender } big chunks).1 ∧
      (Context.takeAll { ctx with sender := sender } big chunks).2 =
        (ctx.takeAll small chunks).2 := by
  induction chunks generalizing small big with
  | nil => exact ⟨sim, rfl⟩
  | cons raw rest ih =>
    obtain ⟨after, report⟩ := sim.takeRaw inside same raw
    obtain ⟨final, reports⟩ := ih after
    rw [Context.takeAll_cons, Context.takeAll_cons, report, reports]
    exact ⟨final, rfl⟩

theorem takeAll_other (sim : TablesSim S places spots bound small big) (ctx : Context)
    (outside : ctx.header.ports ∉ S) (foreign : ∀ i, ctx.sender = some i → i ∉ spots)
    (chunks : List Wire.RawChunk) :
    TablesSim S places spots bound small (ctx.takeAll big chunks).1 := by
  induction chunks generalizing big with
  | nil => exact sim
  | cons raw rest ih => exact ih (sim.takeRaw_other outside foreign raw)

end TablesSim

end Isolation

end SctpTrace
