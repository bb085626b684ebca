import SctpTrace.Proofs.Translation.Chunks

/-!
Two captures that differ in their TSNs alone, those of the second being the first's turned by `k` on
the circle. They are answered the same, up to the turn (`answers_turned`): nothing depends on where
the TSNs pass the wrap.
-/
namespace SctpTrace

open Reassembly Session

namespace Wire

def Packet.Turned (k : UInt32) (p q : Packet) : Prop :=
  q.header = { p.header with checksum := q.header.checksum } ∧ q.lengthError = p.lengthError ∧
    q.trailing = p.trailing ∧ List.Forall₂ (RawChunk.Turned k) p.chunks q.chunks

instance (k : UInt32) (p q : Packet) : Decidable (p.Turned k q) :=
  inferInstanceAs (Decidable (_ ∧ _ ∧ _ ∧ _))

def DecodedTurned (k : UInt32) : Except WireError Packet → Except WireError Packet → Prop
  | .ok p, .ok q => p.Turned k q
  | .error e, .error e' => e' = e
  | _, _ => False

instance (k : UInt32) : ∀ a b, Decidable (DecodedTurned k a b)
  | .ok p, .ok q => inferInstanceAs (Decidable (p.Turned k q))
  | .error e, .error e' => inferInstanceAs (Decidable (e' = e))
  | .ok _, .error _ => isFalse id
  | .error _, .ok _ => isFalse id

end Wire

/-- The same datagram but for its TSNs, and for the checksum over them. -/
structure Datagram.Turned (k : UInt32) (d d' : Datagram) : Prop where
  frame : d'.frame = d.frame
  time : d'.time = d.time
  source : d'.source = d.source
  destination : d'.destination = d.destination
  reported : d'.reported = d.reported
  length : d'.data.length = d.data.length
  packet : Wire.DecodedTurned k (Wire.Packet.decode d.data) (Wire.Packet.decode d'.data)

theorem Datagram.turned_iff {k : UInt32} {d d' : Datagram} :
    d.Turned k d' ↔
      (d'.frame = d.frame ∧ d'.time = d.time ∧ d'.source = d.source ∧
        d'.destination = d.destination ∧ d'.reported = d.reported ∧
        d'.data.length = d.data.length) ∧
      Wire.DecodedTurned k (Wire.Packet.decode d.data) (Wire.Packet.decode d'.data) := by
  constructor
  · rintro ⟨frame, time, source, destination, reported, length, packet⟩
    exact ⟨⟨frame, time, source, destination, reported, length⟩, packet⟩
  · rintro ⟨⟨frame, time, source, destination, reported, length⟩, packet⟩
    exact ⟨frame, time, source, destination, reported, length, packet⟩

instance (k : UInt32) (d d' : Datagram) : Decidable (d.Turned k d') :=
  decidable_of_iff _ Datagram.turned_iff.symm

namespace Session

def PacketFacts.shift (k : UInt32) (p : PacketFacts) : PacketFacts :=
  { p with
    chunks := p.chunks.map (ChunkFacts.shift k)
    findings := p.findings.map (Finding.shift k) }

def PacketFacts.Turned (k : UInt32) (p q : PacketFacts) : Prop :=
  q = { p.shift k with checksum := q.checksum }

def AnswerTurned (k : UInt32) : Answer → Answer → Prop
  | .ok p, .ok q => p.Turned k q
  | .error e, .error e' => e' = e
  | _, _ => False

def PacketFacts.key (p : PacketFacts) (f : DataFacts) : MessageKey :=
  ⟨p.sourcePort, p.destinationPort, p.verificationTag, f.stream, f.sequence, f.unordered⟩

def Received (answers : List Answer) (interleaved : Bool) (key : MessageKey) : Prop :=
  ∃ p, Except.ok p ∈ answers ∧
    ∃ f ∈ p.data, f.delivery.joins = true ∧ p.key f = key ∧ f.interleaved = interleaved

def Sorted (interleaved : MessageKey → Bool) : Answer → Prop
  | .ok p => ∀ f ∈ p.data, f.delivery.joins = true → interleaved (p.key f) = f.interleaved
  | .error _ => True

structure Remembered.Turned (k : UInt32) (a b : Remembered) : Prop where
  facts : a.facts.Turned k b.facts
  replayed : b.replayed = a.replayed

structure Turned (k : UInt32) (interleaved : MessageKey → Bool) (s s' : Session) : Prop where
  config : s'.config = s.config
  associations : s'.associations = s.associations
  tables : s.tables.Turned k interleaved s'.tables
  frames : ∀ frame, Option.Rel (Remembered.Turned k) (Keyed.get? frame s.frames)
    (Keyed.get? frame s'.frames)

variable {k : UInt32} {interleaved : MessageKey → Bool} {s s' : Session} {d d' : Datagram}
  {p q : Wire.Packet}

theorem turned_start (k : UInt32) (interleaved : MessageKey → Bool) (config : Config) :
    (start config).Turned k interleaved (start config) :=
  ⟨rfl, rfl, ⟨rfl, Store.turned_empty _⟩, fun _ => .none⟩

theorem frames_put {entries entries' : Keyed FrameNumber Remembered} {a b : Remembered}
    (frame : FrameNumber)
    (turned : ∀ frame, Option.Rel (Remembered.Turned k) (Keyed.get? frame entries)
      (Keyed.get? frame entries'))
    (same : a.Turned k b) (other : FrameNumber) :
    Option.Rel (Remembered.Turned k) (Keyed.get? other (Keyed.put frame a entries))
      (Keyed.get? other (Keyed.put frame b entries')) := by
  rw [Keyed.get?_put, Keyed.get?_put]
  split
  · exact .some same
  · exact turned other

theorem decodable_turned {chunks chunks' : List Wire.RawChunk}
    (same : List.Forall₂ (Wire.RawChunk.Turned k) chunks chunks') :
    decodable chunks' = (decodable chunks).map (Wire.Chunk.shift k) := by
  induction same with
  | nil => rfl
  | cons here later ih =>
    rename_i raw raw' rest rest'
    obtain ⟨-, -, decode⟩ := here
    rw [decodable, decodable] at ih ⊢
    rw [List.filterMap_cons, List.filterMap_cons, ih, decode]
    cases raw.decode <;> rfl

theorem observeChunk_shift (header : Wire.CommonHeader) (o : Observation) (c : Wire.Chunk) :
    observeChunk header o (c.shift k) = observeChunk header o c := by
  cases c <;> rfl

theorem observation_turned (same : d.Turned k d') (packet : p.Turned k q) :
    observation d' q = observation d p := by
  obtain ⟨header, -, -, chunks⟩ := packet
  have observed : ∀ (cs : List Wire.Chunk) (o : Observation),
      cs.foldl (fun o c => observeChunk q.header o (c.shift k)) o =
        cs.foldl (observeChunk p.header) o := by
    intro cs o
    congr 1
    funext o c
    rw [observeChunk_shift, header]
    cases c <;> rfl
  rw [observation, observation, decodable_turned chunks, List.foldl_map, observed, header,
    same.source, same.destination]

theorem standsAlone_turned {chunks chunks' : List Wire.RawChunk}
    (same : List.Forall₂ (Wire.RawChunk.Turned k) chunks chunks') :
    bundlingFindings chunks' = bundlingFindings chunks := by
  have headers : chunks'.map (·.header) = chunks.map (·.header) := by
    induction same with
    | nil => rfl
    | cons here later ih => rw [List.map_cons, List.map_cons, here.2.1, ih]
  have alone : ∀ raws : List Wire.RawChunk,
      (raws.filter standsAlone).map (fun raw => Finding.illegalBundling raw.header.code) =
        ((raws.map (·.header)).filter fun h => standsAlone ⟨0, h, []⟩).map
          fun h => .illegalBundling h.code := by
    intro raws
    rw [List.filter_map, List.map_map]
    rfl
  have length : chunks'.length = chunks.length := by
    simpa using congrArg List.length headers
  rw [bundlingFindings, bundlingFindings, length, alone, alone, headers]

theorem packetFindings_turned (same : d.Turned k d') (packet : p.Turned k q) :
    packetFindings d' q = (packetFindings d p).map (Finding.shift k) := by
  obtain ⟨-, lengthError, trailing, chunks⟩ := packet
  have equal : packetFindings d' q = packetFindings d p := by
    rw [packetFindings, packetFindings, captureFindings, captureFindings, Datagram.isCut,
      Datagram.isCut, same.length, same.reported, lengthError, trailing, standsAlone_turned chunks]
  have captured : (captureFindings d).map (Finding.shift k) = captureFindings d := by
    unfold captureFindings
    split <;> rfl
  have lengths : (lengthFindings p.lengthError).map (Finding.shift k) =
      lengthFindings p.lengthError := by
    unfold lengthFindings
    split <;> rfl
  have trailed : (trailingFindings p.trailing).map (Finding.shift k) =
      trailingFindings p.trailing := by
    unfold trailingFindings
    split <;> rfl
  have bundled : (bundlingFindings p.chunks).map (Finding.shift k) =
      bundlingFindings p.chunks := by
    unfold bundlingFindings
    split
    · rfl
    · rw [List.map_map]
      rfl
  rw [equal, packetFindings, List.map_append, List.map_append, List.map_append, captured, lengths,
    trailed, bundled]

theorem assign_turned (turned : s.Turned k interleaved s') (same : d.Turned k d')
    (packet : p.Turned k q) : s'.assign d' q = s.assign d p := by
  rw [Session.assign, Session.assign, turned.config, turned.associations, same.frame,
    observation_turned same packet]

theorem sender_turned (turned : s.Turned k interleaved s') (flow : Option Flow) :
    s'.sender flow = ((s.sender flow).1.shift k, (s.sender flow).2) := by
  unfold Session.sender
  rw [turned.tables.tracker, turned.config]
  cases flow with
  | none => rfl
  | some f =>
    simp only [Transmission.Tracker.ensure_shift]
    split <;> rfl

/- The reports need the sorting of what reassembly has taken; the facts say how it went. -/
theorem taken_turned (turned : s.Turned k interleaved s') (same : d.Turned k d')
    (packet : p.Turned k q) (sorted : Sorted interleaved (.ok (s.take d p).2)) :
    (s.taken d p).1.Turned k interleaved (s'.taken d' q).1 ∧
      (s'.taken d' q).2 = (s.taken d p).2.map (ChunkReport.shift k) := by
  have stamp : d'.stamp = d.stamp := by
    rw [Datagram.stamp, same.frame, same.time]
    rfl
  have unmixed : ∀ r ∈ (s.taken d p).2, Unmixed interleaved p.header r.facts := by
    intro r there f data joins
    refine sorted f (List.mem_filterMap.mpr ⟨r.facts, List.mem_map_of_mem there, ?_⟩) joins
    rw [data]
    rfl
  have assigned := assign_turned turned same packet
  obtain ⟨header, -, -, chunks⟩ := packet
  have tables : Tables.Turned k interleaved
      { s.tables with tracker := (s.sender (s.assign d p).2).1 }
      { s'.tables with tracker := (s.sender (s.assign d p).2).1.shift k } :=
    ⟨rfl, turned.tables.store⟩
  have context : s'.taken d' q =
      (Context.withChecksum ⟨s.config, p.header, d.stamp, (s.sender (s.assign d p).2).2⟩
        q.header.checksum).takeAll
          { s'.tables with tracker := (s.sender (s.assign d p).2).1.shift k } q.chunks := by
    simp only [taken, assigned, sender_turned turned, turned.config, stamp]
    rw [header]
    rfl
  rw [context]
  exact takeAll_turned tables chunks unmixed

theorem take_turned (turned : s.Turned k interleaved s') (same : d.Turned k d')
    (packet : p.Turned k q) (sorted : Sorted interleaved (.ok (s.take d p).2)) :
    (s.take d p).1.Turned k interleaved (s'.take d' q).1 ∧
      (s.take d p).2.Turned k (s'.take d' q).2 := by
  obtain ⟨tables, reports⟩ := taken_turned turned same packet sorted
  have sourcePort : q.header.sourcePort = p.header.sourcePort := by rw [packet.1]
  have destinationPort : q.header.destinationPort = p.header.destinationPort := by rw [packet.1]
  have tag : q.header.verificationTag = p.header.verificationTag := by rw [packet.1]
  have facts : (s.take d p).2.Turned k (s'.take d' q).2 := by
    rw [PacketFacts.Turned, facts_take, facts_take, reports, assign_turned turned same packet,
      packetFindings_turned same packet, same.frame, sourcePort, destinationPort, tag]
    simp only [PacketFacts.shift, List.map_map, List.map_append, List.flatMap_map,
      List.map_flatMap]
    rfl
  refine ⟨⟨turned.config, ?_, tables, ?_⟩, facts⟩
  · exact congrArg Prod.fst (assign_turned turned same packet)
  · rw [(take_eq d p).2.2.2, (take_eq d' q).2.2.2, same.frame]
    exact frames_put _ turned.frames ⟨facts, rfl⟩

theorem visit_turned (turned : s.Turned k interleaved s') (same : d.Turned k d')
    (sorted : Sorted interleaved (s.visit d).2) :
    (s.visit d).1.Turned k interleaved (s'.visit d').1 ∧
      AnswerTurned k (s.visit d).2 (s'.visit d').2 := by
  have memory := turned.frames d.frame
  have packet := same.packet
  unfold Session.visit at sorted ⊢
  rw [same.frame]
  generalize Keyed.get? d.frame s.frames = known, Keyed.get? d.frame s'.frames = known'
    at memory sorted ⊢
  cases memory with
  | some remembered =>
    refine ⟨⟨turned.config, turned.associations, turned.tables, ?_⟩, remembered.facts⟩
    exact frames_put _ turned.frames ⟨remembered.facts, rfl⟩
  | none =>
    generalize Wire.Packet.decode d.data = decoded, Wire.Packet.decode d'.data = decoded'
      at packet sorted ⊢
    cases decoded with
    | error e =>
      cases decoded' with
      | error e' => exact ⟨turned, packet⟩
      | ok q => cases packet
    | ok p =>
      cases decoded' with
      | error e' => cases packet
      | ok q => exact take_turned turned same packet sorted

theorem visitAll_turned {first second : List Datagram}
    (same : List.Forall₂ (Datagram.Turned k) first second) (turned : s.Turned k interleaved s')
    (sorted : ∀ a ∈ (s.visitAll first).2, Sorted interleaved a) :
    (s.visitAll first).1.Turned k interleaved (s'.visitAll second).1 ∧
      List.Forall₂ (AnswerTurned k) (s.visitAll first).2 (s'.visitAll second).2 := by
  induction same generalizing s s' with
  | nil => exact ⟨turned, .nil⟩
  | cons here later ih =>
    rw [visitAll_cons] at sorted
    obtain ⟨after, answer⟩ := visit_turned turned here (sorted _ List.mem_cons_self)
    obtain ⟨final, answers⟩ := ih after fun a there => sorted a (List.mem_cons_of_mem _ there)
    exact ⟨final, .cons answer answers⟩

/-- Two captures of which the second has every TSN turned by `k` are answered the same up to the turn,
and reach the same state up to the turn, unless a fragment key receives DATA and I-DATA. -/
theorem answers_turned {config : Config} {session : Session}
    (fresh : Session.new config = .ok session) (k : UInt32) (first second : List Datagram)
    (same : List.Forall₂ (Datagram.Turned k) first second)
    (unmixed : ∀ key, Received (session.visitAll first).2 true key →
      ¬ Received (session.visitAll first).2 false key) :
    let before := session.visitAll first
    let after := session.visitAll second
    List.Forall₂ (AnswerTurned k) before.2 after.2 ∧
      after.1.associations = before.1.associations ∧
      after.1.tables.tracker = before.1.tables.tracker.shift k ∧
      (∀ key, ¬ Received before.2 true key →
        Option.Rel (Fragments.Turned k) (before.1.tables.store.fragments? key)
          (after.1.tables.store.fragments? key)) ∧
      ∀ key, Received before.2 true key →
        Option.Rel (Fragments.Turned 0) (before.1.tables.store.fragments? key)
          (after.1.tables.store.fragments? key) := by
  classical
  obtain ⟨-, rfl⟩ := Session.new_eq_ok_iff.mp fresh
  -- A key that receives I-DATA holds FSNs, which are not turned.
  let interleaved (key : MessageKey) : Bool :=
    decide (Received ((start config).visitAll first).2 true key)
  have sorted : ∀ a ∈ ((start config).visitAll first).2, Sorted interleaved a := by
    intro a there
    cases a with
    | error e => exact trivial
    | ok p =>
      intro f member joins
      have received : Received ((start config).visitAll first).2 f.interleaved (p.key f) :=
        ⟨p, there, f, member, joins, rfl, rfl⟩
      cases kind : f.interleaved with
      | true =>
        rw [kind] at received
        exact decide_eq_true received
      | false =>
        rw [kind] at received
        exact decide_eq_false fun both => unmixed _ both received
  obtain ⟨turned, answers⟩ := visitAll_turned same (turned_start k interleaved config) sorted
  refine ⟨answers, turned.associations, turned.tables.tracker, ?_, ?_⟩
  · intro key other
    have here := turned.tables.store key
    have full : turnOf k interleaved key = k := by simp [turnOf, interleaved, other]
    rwa [full] at here
  · intro key own
    have here := turned.tables.store key
    have none : turnOf k interleaved key = 0 := by simp [turnOf, interleaved, own]
    rwa [none] at here

def datagramAt (frame : FrameNumber) (tag : UInt32) (chunk : Bytes) : Datagram :=
  let forth := tag != 9
  let ports : UInt16 × UInt16 := if forth then (2905, 2906) else (2906, 2905)
  let data := Wire.CommonHeader.write ⟨ports.1, ports.2, tag, 0⟩ ++ chunk
  let one : Address := .ofOctets 10 0 0 1
  let two : Address := .ofOctets 10 0 0 2
  ⟨frame, ⟨frame.toNat, 0⟩, if forth then one else two, if forth then two else one, data,
    data.length⟩

/-- A handshake, a message in two pieces of which the last one comes first, and a SACK for both. -/
def exchange (first second : UInt32) : List Datagram :=
  [datagramAt 1 0 (Wire.InitChunk.write ⟨9, 1500, 1, 1, first⟩ false),
    datagramAt 2 9 (Wire.InitChunk.write ⟨7, 1500, 1, 1, first⟩ true),
    datagramAt 3 7 (Wire.DataChunk.write ⟨second, 1, 5, 0, [67], false, false, true⟩),
    datagramAt 4 7 (Wire.DataChunk.write ⟨first, 1, 5, 0, [65, 66], false, true, false⟩),
    datagramAt 5 9 (Wire.SackChunk.write ⟨second, 1500, [], [], [first]⟩ false)]

theorem answers_turned_over_the_wrap :
    Session.new {} = .ok (start {}) ∧
      List.Forall₂ (Datagram.Turned 4294967285) (exchange 10 11) (exchange 4294967295 0) ∧
      (∀ key, Received ((start {}).visitAll (exchange 10 11)).2 true key →
        ¬ Received ((start {}).visitAll (exchange 10 11)).2 false key) ∧
      List.Forall₂ (AnswerTurned 4294967285) ((start {}).visitAll (exchange 10 11)).2
        ((start {}).visitAll (exchange 4294967295 0)).2 := by
  have fresh : Session.new {} = .ok (start {}) := rfl
  have same : List.Forall₂ (Datagram.Turned 4294967285) (exchange 10 11)
      (exchange 4294967295 0) := by decide +kernel
  have plain : (((start {}).visitAll (exchange 10 11)).2.all fun a =>
      a.toOption.all fun p => p.data.all fun f => !f.interleaved) = true := by decide +kernel
  have unmixed : ∀ key, Received ((start {}).visitAll (exchange 10 11)).2 true key →
      ¬ Received ((start {}).visitAll (exchange 10 11)).2 false key := by
    rintro key ⟨p, there, f, member, -, -, kind⟩
    have none := List.all_eq_true.mp plain _ there
    simp only [Except.toOption, Option.all_some, List.all_eq_true] at none
    have other := none f member
    rw [kind] at other
    cases other
  exact ⟨fresh, same, unmixed, (answers_turned fresh _ _ _ same unmixed).1⟩

end Session

end SctpTrace
