import SctpTrace.Proofs.Sender.Pieces
import SctpTrace.Proofs.Wire.Written
import SctpTrace.Session.Basic

/-!
One sender alone on its ports. All its datagrams belong to one association and one flow, whatever
they carry.
-/
namespace SctpTrace.Sender

open Session

def Path.observation (path : Path) : Observation :=
  ⟨path.sourcePort, path.destinationPort, path.source, path.destination, path.verificationTag, 0⟩

def Path.singleKey (path : Path) : SingleKey :=
  .of path.sourcePort path.destinationPort path.verificationTag

def Path.association (path : Path) (frame : FrameNumber) : Association :=
  ⟨0, path.sourcePort, path.destinationPort, path.source, path.destination, path.verificationTag, 0,
    frame⟩

def onlyFlow : Flow := ⟨0, .forward⟩

inductive Routed (path : Path) : AssociationTable → Prop where
  | vacant (frames : Keyed FrameNumber Flow) : Routed path ⟨[], [], [], frames⟩
  | one (first : FrameNumber) (frames : Keyed FrameNumber Flow) :
    Routed path ⟨[path.association first], [(path.singleKey, [0])], [], frames⟩

def dataUnit? : Wire.Chunk → Option DataUnit
  | .data c => some (.ofData c)
  | .interleaved c => some (.ofInterleaved c)
  | _ => none

def unitsOf (chunks : List Wire.RawChunk) : List DataUnit := (decodable chunks).filterMap dataUnit?

def units (d : Datagram) : List DataUnit :=
  match Wire.Packet.decode d.data with
  | .ok p => unitsOf p.chunks
  | .error _ => []

def Sends (sent : List DataUnit) (chunks : List Wire.RawChunk) : Prop :=
  ∀ raw ∈ chunks, ∃ c, raw.decode = .ok (.data c) ∧ DataUnit.ofData c ∈ sent

/-- A datagram of the path that carries units of those sent and nothing else, each once. -/
structure Carries (path : Path) (sent : List DataUnit) (d : Datagram) : Prop where
  source : d.source = path.source
  destination : d.destination = path.destination
  packet : ∃ p, Wire.Packet.decode d.data = .ok p ∧ p.header.sourcePort = path.sourcePort ∧
    p.header.destinationPort = path.destinationPort ∧
    p.header.verificationTag = path.verificationTag ∧ Sends sent p.chunks
  once : ((units d).map (·.tsn)).Nodup

variable {path : Path} {t : AssociationTable} {frame : FrameNumber} {sent : List DataUnit}
  {raw : Wire.RawChunk} {chunks : List Wire.RawChunk}

theorem unitsOf_cons {c : Wire.DataChunk} (decodes : raw.decode = .ok (.data c)) :
    unitsOf (raw :: chunks) = .ofData c :: unitsOf chunks := by
  simp [unitsOf, decodable, decodes, Except.toOption, dataUnit?]

theorem observe_sends (header : Wire.CommonHeader) (o : Observation) (sends : Sends sent chunks) :
    (decodable chunks).foldl (observeChunk header) o = o := by
  induction chunks with
  | nil => rfl
  | cons raw rest ih =>
    obtain ⟨c, decodes, -⟩ := sends raw List.mem_cons_self
    have front : decodable (raw :: rest) = .data c :: decodable rest := by
      simp [decodable, decodes, Except.toOption]
    rw [front, List.foldl_cons]
    exact ih fun raw there => sends raw (List.mem_cons_of_mem _ there)

theorem probes_observation (tagged : path.verificationTag ≠ 0) :
    path.observation.probes = [path.verificationTag] := by
  simp [Observation.probes, Path.observation, tagged]

theorem direction_observation (first : FrameNumber) :
    (path.association first).direction? path.observation = some .forward := by
  simp [Association.direction?, Association.matchesForward, Path.association, Path.observation,
    Observation.tags, TagPair.agree, Tag.agree]

theorem lookup_one (tagged : path.verificationTag ≠ 0) (first : FrameNumber)
    (frames : Keyed FrameNumber Flow) :
    AssociationTable.lookup? ⟨[path.association first], [(path.singleKey, [0])], [], frames⟩
      path.observation = some onlyFlow := by
  have candidate : AssociationTable.candidate?
      ⟨[path.association first], [(path.singleKey, [0])], [], frames⟩ path.observation 0 =
        some onlyFlow := by
    simp [AssociationTable.candidate?, direction_observation first, onlyFlow]
  have bucket : AssociationTable.bucket
      ⟨[path.association first], [(path.singleKey, [0])], [], frames⟩ path.singleKey = [0] := by
    simp [AssociationTable.bucket, Keyed.get?]
  have single : AssociationTable.lookupSingle?
      ⟨[path.association first], [(path.singleKey, [0])], [], frames⟩ path.observation
        path.verificationTag = some onlyFlow := by
    rw [AssociationTable.lookupSingle?]
    change List.findSome? _ (AssociationTable.bucket _ path.singleKey) = _
    rw [bucket, List.findSome?_cons, candidate]
  have notBoth : path.observation.showsBoth = false := by
    simp [Observation.showsBoth, Path.observation]
  simp [AssociationTable.lookup?, AssociationTable.lookupPair?, notBoth,
    probes_observation tagged, single]

theorem learn_one (tagged : path.verificationTag ≠ 0) (first : FrameNumber)
    (frames : Keyed FrameNumber Flow) :
    AssociationTable.learn ⟨[path.association first], [(path.singleKey, [0])], [], frames⟩ onlyFlow
      path.observation = ⟨[path.association first], [(path.singleKey, [0])], [], frames⟩ := by
  have same : AssociationTable.learned (path.association first) path.observation .forward =
      path.association first := by
    simp [AssociationTable.learned, Path.association, Path.observation, Observation.tags, tagged]
  simp [AssociationTable.learn, onlyFlow, same, AssociationTable.newTags]

theorem introduce_vacant (tagged : path.verificationTag ≠ 0) (frames : Keyed FrameNumber Flow) :
    AssociationTable.introduce ⟨[], [], [], frames⟩ frame path.observation =
      ⟨[path.association frame], [(path.singleKey, [0])], [], frames⟩ := by
  rw [AssociationTable.introduce, probes_observation tagged]
  simp [AssociationTable.fresh, AssociationTable.registerSingle, AssociationTable.bucket,
    Keyed.get?, Keyed.put, Association.isComplete, Path.association, Path.observation,
    Path.singleKey]

theorem Routed.resolve (routed : Routed path t) (tagged : path.verificationTag ≠ 0)
    (unseen : Keyed.get? frame t.frames = none) :
    ∃ t', t.resolve frame false path.observation = (t', some onlyFlow) ∧ Routed path t' ∧
      t'.frames = Keyed.put frame onlyFlow t.frames := by
  cases routed with
  | vacant frames =>
    have nothing : AssociationTable.lookup? ⟨[], [], [], frames⟩ path.observation = none := by
      simp [AssociationTable.lookup?, AssociationTable.lookupPair?, AssociationTable.lookupSingle?,
        AssociationTable.bucket, Keyed.get?]
    refine ⟨_, ?_, .one frame (Keyed.put frame onlyFlow frames), rfl⟩
    simp only [AssociationTable.resolve, unseen, AssociationTable.assign, nothing,
      introduce_vacant tagged]
    rfl
  | one first frames =>
    refine ⟨_, ?_, .one first (Keyed.put frame onlyFlow frames), rfl⟩
    simp only [AssociationTable.resolve, unseen, AssociationTable.assign, lookup_one tagged,
      learn_one tagged]
    rfl

def chunkOf (u : DataUnit) : Wire.DataChunk :=
  ⟨u.tsn, u.stream, u.sequence.toUInt16, 0, u.payload, u.unordered, u.beginning, u.ending⟩

def written (path : Path) (stamp : Stamp) (units : List DataUnit) : Datagram :=
  let header : Wire.CommonHeader :=
    ⟨path.sourcePort, path.destinationPort, path.verificationTag, 0⟩
  let data := header.write ++ (units.map fun u => (chunkOf u).template).flatMap Wire.Template.write
  ⟨stamp.frame, stamp.time, path.source, path.destination, data, data.length⟩

variable {start : UInt32} {messages : List UserMessage} {u : DataUnit} {content : List DataUnit}

theorem ofData_chunkOf (member : u ∈ layout start messages) : .ofData (chunkOf u) = u := by
  obtain ⟨p, -, inside⟩ := exists_placed member
  obtain ⟨k, payload, -, rfl⟩ := Placed.mem_units_iff.mp inside
  simp [DataUnit.ofData, chunkOf, Placed.unit]

theorem fits_chunkOf (short : u.payload.length ≤ 65519) : (chunkOf u).template.Fits := by
  change (Wire.DataChunk.value (chunkOf u)).length ≤ 65531
  simp only [Wire.DataChunk.value, chunkOf, List.length_append, Bytes.length_write16,
    Bytes.length_write32]
  omega

theorem unitsOf_rawChunks (known : ∀ u ∈ content, u ∈ layout start messages) (offset : Nat) :
    unitsOf (Wire.rawChunks offset (content.map fun u => (chunkOf u).template)) = content := by
  induction content generalizing offset with
  | nil => rfl
  | cons u rest ih =>
    rw [List.map_cons, Wire.rawChunks, unitsOf_cons (Wire.decode_data (chunkOf u) offset),
      ofData_chunkOf (known u List.mem_cons_self), ih fun v there =>
        known v (List.mem_cons_of_mem _ there)]

theorem carries_written (path : Path) (stamp : Stamp)
    (known : ∀ u ∈ content, u ∈ layout start messages)
    (short : ∀ u ∈ content, u.payload.length ≤ 65519) (once : (content.map (·.tsn)).Nodup) :
    Carries path (layout start messages) (written path stamp content) ∧
      units (written path stamp content) = content := by
  have fit : ∀ c ∈ content.map fun u => (chunkOf u).template, c.Fits := by
    intro c there
    obtain ⟨u, member, rfl⟩ := List.mem_map.mp there
    exact fits_chunkOf (short u member)
  have decoded := Wire.decode_write
    ⟨path.sourcePort, path.destinationPort, path.verificationTag, 0⟩ _ fit
  have same : units (written path stamp content) = content := by
    rw [units, written, decoded]
    exact unitsOf_rawChunks known _
  refine ⟨⟨rfl, rfl, ⟨_, decoded, rfl, rfl, rfl, ?_⟩, ?_⟩, same⟩
  · apply Wire.forall_rawChunks
    intro c there offset
    obtain ⟨u, member, rfl⟩ := List.mem_map.mp there
    refine ⟨chunkOf u, Wire.decode_data (chunkOf u) offset, ?_⟩
    rw [ofData_chunkOf (known u member)]
    exact known u member
  · rw [same]
    exact once

end SctpTrace.Sender
