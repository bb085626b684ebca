import SctpTrace.Proofs.Guarded.Joining
import SctpTrace.Proofs.Guarded.Tables
import SctpTrace.Proofs.Isolation.Run
import SctpTrace.Proofs.Session.Halves
import SctpTrace.Proofs.Session.Resolved

/-!
A session with every operation that is not defined everywhere written out. Whatever octets, frames,
times and lengths its datagrams have, none of these operations fails, and the answers are those of
the session (`visitAll_in_range`). What is only written to a log is left out. One number there can
leave its type after all: the fragments of a joined message, counted in 32 bits, when the message
goes all the way around the circle (`fragmentCount_eq_none_iff`).
-/
namespace SctpTrace.Guarded

open Session Transmission Wire

/- The chunks of a packet. -/

def retransmissionFindings (cap : Nat) (tsn : UInt32) (r : Retransmission) :
    Option (List Finding) := do
  -- One more than the cap is asked for only when the history is truncated.
  let reached ←
    if r.historyTruncated then (word (cap + 1)).map fun limit => r.count == limit else some false
  return (match r.afterAckIn with
    | some frame => [.retransmittedAfterAck tsn frame]
    | none => []) ++
  (if reached then [.retransmissionLimit tsn r.count] else [])

def transmissionFindings (cap : Nat) (tsn : UInt32) (o : Option Outcome) : Option (List Finding) :=
  match o.bind (·.retransmission) with
  | some r => retransmissionFindings cap tsn r
  | none => some []

def takeData (ctx : Context) (tables : Tables) (data : DataUnit) :
    Option (Tables × ChunkReport) := do
  let cap := ctx.config.tsn.maxRetransmissionsTracked
  let (tracker, transmission) ←
    match ctx.sender with
    | none => some (tables.tracker, none)
    | some id => transmit tables.tracker id data.tsn ctx.stamp cap
  let found ← transmissionFindings cap data.tsn transmission
  let delivered :=
    if transmission.any (·.isRetransmission) then ⟨tables.store, .retransmission, [], .zero⟩
    else ctx.deliver tables.store data
  let facts : DataFacts :=
    ⟨data.tsn, data.interleaved, data.stream, data.sequence, data.unordered, data.beginning,
      data.ending, data.payload.length, transmission, delivered.delivery⟩
  let counted := (transmission.map (·.tally)).getD .zero
  return (⟨tracker, delivered.store⟩,
    ⟨.data facts, found ++ delivered.findings, counted + delivered.tally⟩)

def takeSack (ctx : Context) (tables : Tables) (chunk : SackChunk) (nonRenegable : Bool) :
    Option (Tables × ChunkReport) :=
  (sack tables.tracker (ctx.sender.bind tables.tracker.peer?) ctx.config.ackLimits chunk
    nonRenegable ctx.stamp).map fun (tracker, facts) =>
      ({ tables with tracker := tracker }, ⟨.sack facts, sackFindings facts, facts.tally⟩)

def takeChunk (ctx : Context) (tables : Tables) : Chunk → Option (Tables × ChunkReport)
  | .data c => takeData ctx tables (.ofData c)
  | .interleaved c => takeData ctx tables (.ofInterleaved c)
  | .sack c => takeSack ctx tables c false
  | .nrSack c => takeSack ctx tables c true
  | other => some (ctx.takeChunk tables other)

def takeRaw (ctx : Context) (tables : Tables) (raw : RawChunk) : Option (Tables × ChunkReport) := do
  match ← chunk raw.header raw.value with
  | .ok c => takeChunk ctx tables c
  | .error reason => return (tables, malformedReport raw reason)

def takeAll (ctx : Context) : Tables → List RawChunk → Option (Tables × List ChunkReport)
  | tables, [] => some (tables, [])
  | tables, raw :: rest => do
    let (tables, report) ← takeRaw ctx tables raw
    let (tables, reports) ← takeAll ctx tables rest
    return (tables, report :: reports)

/- The datagrams of a capture. -/

def decodable : List RawChunk → Option (List Chunk)
  | [] => some []
  | raw :: rest => do
    let first ← chunk raw.header raw.value
    let later ← decodable rest
    return first.toOption.toList ++ later

def observation (d : Datagram) (p : Packet) : Option Observation :=
  (decodable p.chunks).map fun chunks =>
    chunks.foldl (observeChunk p.header)
      ⟨p.header.sourcePort, p.header.destinationPort, d.source, d.destination,
        p.header.verificationTag, 0⟩

def assignFlow (s : Session) (d : Datagram) (p : Packet) :
    Option (AssociationTable × Option Flow) :=
  if s.config.indexing then do resolve s.associations d.frame (← observation d p)
  else some (s.associations, none)

def sender (s : Session) (flow : Option Flow) : Option (Tracker × Option Nat) :=
  match flow with
  | none => some (s.tables.tracker, none)
  | some f =>
    if s.config.tsn.enabled then (ensure s.tables.tracker f).map fun (t, id) => (t, some id)
    else some (s.tables.tracker, none)

def take (s : Session) (d : Datagram) (p : Packet) : Option (Session × PacketFacts) := do
  let verdict ← verify d.data d.reported s.config.checksum
  let (associations, flow) ← assignFlow s d p
  let (tracker, sender) ← sender s flow
  let (tables, reports) ←
    takeAll ⟨s.config, p.header, d.stamp, sender⟩ { s.tables with tracker := tracker } p.chunks
  let facts : PacketFacts :=
    ⟨d.frame, p.header.sourcePort, p.header.destinationPort, p.header.verificationTag, verdict,
      flow, reports.map (·.facts), packetFindings d p ++ reports.flatMap (·.findings)⟩
  return ({ s with
      associations := associations
      tables := tables
      frames := Keyed.put d.frame ⟨facts, false⟩ s.frames
      tally := s.tally + packetTally verdict p + Tally.sum (reports.map (·.tally)) },
    facts)

def visit (s : Session) (d : Datagram) : Option (Session × Answer) :=
  match Keyed.get? d.frame s.frames with
  | some entry =>
    some ({ s with frames := Keyed.put d.frame { entry with replayed := true } s.frames },
      .ok entry.facts)
  | none => do
    match ← decode d.data with
    | .error e => return (s, .error e)
    | .ok p =>
      let (s, facts) ← take s d p
      return (s, .ok facts)

def visitAll : Session → List Datagram → Option (Session × List Answer)
  | s, [] => some (s, [])
  | s, d :: rest => do
    let (s, answer) ← visit s d
    let (s, answers) ← visitAll s rest
    return (s, answer :: answers)

section
variable {ctx : Context} {flow : Option Flow} {tables : Tables} {config : Config} {cap : Nat}
  {tsn : UInt32}

theorem transmissionFindings_eq {o : Option Outcome}
    (room : ∀ r ∈ o.bind (·.retransmission), r.historyTruncated = true → cap + 1 < 4294967296) :
    transmissionFindings cap tsn o = some (Session.transmissionFindings cap tsn o) := by
  unfold transmissionFindings Session.transmissionFindings
  cases again : o.bind (·.retransmission) with
  | none => rfl
  | some r =>
    simp only [retransmissionFindings, Session.retransmissionFindings]
    cases truncated : r.historyTruncated with
    | false => rfl
    | true =>
      simp only [word_eq (room r again truncated)]
      rfl

theorem takeData_eq (reachable : tables.Reachable ctx.config) (data : DataUnit) :
    takeData ctx tables data = some (ctx.takeData tables data) := by
  unfold takeData Context.takeData Context.transmit
  cases ctx.sender with
  | none => rfl
  | some id =>
    have room := limit_fits reachable id data.tsn ctx.stamp
    simp only [transmit_eq reachable, transmissionFindings_eq room, Option.bind_eq_bind,
      Option.bind_some]
    rfl

theorem takeRaw_eq (reachable : tables.Reachable ctx.config) (raw : RawChunk) :
    takeRaw ctx tables raw = some (ctx.takeRaw tables raw) := by
  unfold takeRaw Context.takeRaw RawChunk.decode
  rw [chunk_eq]
  simp only [Option.bind_eq_bind, Option.bind_some]
  cases decoded : Chunk.decode raw.header raw.value with
  | error reason => rfl
  | ok c =>
    cases c with
    | data c => exact takeData_eq reachable _
    | interleaved c => exact takeData_eq reachable _
    | sack c =>
      have few := Chunk.length_gaps_lt decoded rfl
      simp only [takeChunk, takeSack, sack_eq _ _ _ few]
      rfl
    | nrSack c =>
      have few := Chunk.length_gaps_lt decoded rfl
      simp only [takeChunk, takeSack, sack_eq _ _ _ few]
      rfl
    | init c => rfl
    | initAck c => rfl
    | abort reflected => rfl
    | shutdownComplete reflected => rfl
    | other code length => rfl

theorem takeAll_eq (chunks : List RawChunk)
    (first : ∀ raw, ChunkPass.Taken config ⟨ctx, flow, tables, raw⟩)
    (reachable : tables.Reachable config) :
    takeAll ctx tables chunks = some (ctx.takeAll tables chunks) := by
  induction chunks generalizing tables with
  | nil => rfl
  | cons raw rest ih =>
    have same := (first raw).configured
    have later := ih (fun next => (first raw).next next) ((first raw).reachable reachable)
    rw [Context.takeAll_cons, takeAll, takeRaw_eq (by rwa [same])]
    simp only [Option.bind_eq_bind, Option.bind_some]
    rw [ChunkPass.after] at later
    rw [later]
    rfl

end

theorem decodable_eq (chunks : List RawChunk) :
    decodable chunks = some (Session.decodable chunks) := by
  induction chunks with
  | nil => rfl
  | cons raw rest ih =>
    rw [decodable, chunk_eq, ih, Session.decodable, Session.decodable, List.filterMap_cons,
      RawChunk.decode]
    cases Chunk.decode raw.header raw.value <;> rfl

/-- What keeps the analysis of the next datagram in range. -/
structure Ready (s : Session) : Prop where
  indexed : s.config.indexing = true → s.Indexed
  sound : s.tables.tracker.Sound
  reachable : s.tables.Reachable s.config

section
variable {s : Session}

theorem Ready.of_fresh (fresh : s.Fresh) : Ready s := by
  refine ⟨fresh.indexed, ?_, ?_⟩
  · rw [fresh.unseen.2]
    exact Tracker.sound_empty
  · exact reachable_visitAll fresh []

theorem Ready.visit (ready : Ready s) (d : Datagram) : Ready (s.visit d).1 := by
  obtain ⟨sound, same⟩ := sound_visit ready.sound d
  refine ⟨?_, sound, ?_⟩
  · intro indexing
    rw [same] at indexing
    exact ((ready.indexed indexing).visit d).1
  · rw [same]
    exact visit_induction (P := fun _ tables => tables.Reachable s.config) []
      (fun _ => reachable_neutral s.config) (fun _ _ taken before => taken.reachable before)
      ready.sound d ready.reachable

theorem Ready.assignFlow_eq (ready : Ready s) (d : Datagram) (p : Packet) :
    assignFlow s d p = some (s.assign d p) := by
  unfold assignFlow Session.assign
  split
  · rename_i indexing
    have table := (ready.indexed indexing).reachable
    rw [observation, decodable_eq]
    exact resolve_eq table d.frame _
  · rfl

theorem sender_eq (s : Session) (flow : Option Flow) : sender s flow = some (s.sender flow) := by
  unfold sender Session.sender
  cases flow with
  | none => rfl
  | some f =>
    simp only [ensure_eq]
    split <;> rfl

theorem Ready.take_eq (ready : Ready s) (d : Datagram) (p : Packet) :
    take s d p = some (s.take d p) := by
  have opened := opened_neutral (reachable_neutral s.config) d p ready.reachable
  have chunks := takeAll_eq p.chunks (taken_first ready.sound d p) opened
  unfold take
  rw [verify_eq, ready.assignFlow_eq]
  simp only [sender_eq, Option.bind_eq_bind, Option.bind_some]
  rw [Session.context, Session.opened] at chunks
  rw [chunks]
  rfl

theorem Ready.visit_eq (ready : Ready s) (d : Datagram) : Guarded.visit s d = some (s.visit d) := by
  unfold Guarded.visit Session.visit
  rw [decode_eq]
  cases Keyed.get? d.frame s.frames with
  | some entry => rfl
  | none =>
    cases Packet.decode d.data with
    | error e => rfl
    | ok p =>
      simp only [ready.take_eq, Option.bind_eq_bind, Option.bind_some]
      rfl

theorem Ready.visitAll_eq (ready : Ready s) (run : List Datagram) :
    visitAll s run = some (s.visitAll run) := by
  induction run generalizing s with
  | nil => rfl
  | cons d rest ih =>
    rw [visitAll, ready.visit_eq, Session.visitAll_cons]
    simp only [Option.bind_eq_bind, Option.bind_some, ih (ready.visit d)]
    rfl

/-- No datagram makes the analysis read past its octets, look up a place that is not there, ask for
a range backwards or leave a number's type. -/
theorem visitAll_in_range (fresh : s.Fresh) (run : List Datagram) :
    visitAll s run = some (s.visitAll run) :=
  (Ready.of_fresh fresh).visitAll_eq run

end

/-- After a handshake and data that is sent twice: an ack that jumps over half the circle, with gap
blocks backwards and over all offsets, a chunk that ends beyond its datagram, and a cut header. -/
def hostile : List Datagram :=
  let sent := DataChunk.write ⟨4294967295, 1, 5, 0, [65], false, true, true⟩
  let acks := SackChunk.write ⟨2147483646, 1500, [⟨65535, 0⟩, ⟨0, 65535⟩], [], []⟩ false
  [between 1 2905 2906 0 (InitChunk.write ⟨7, 1500, 1, 1, 4294967295⟩ false),
    between 2 2906 2905 7 (InitChunk.write ⟨9, 1500, 1, 1, 50⟩ true),
    between 3 2905 2906 9 sent, between 4 2905 2906 9 sent, between 5 2906 2905 7 acks,
    between 6 2905 2906 9 [0, 3, 255, 255, 0], { between 7 2905 2906 9 [] with data := [11, 89] }]

theorem visitAll_in_range_of_hostile :
    (start {}).Fresh ∧ Guarded.visitAll (start {}) hostile = some ((start {}).visitAll hostile) ∧
      ((start {}).visitAll hostile).2.map (fun answer => answer.toOption.map (·.findings)) =
        [some [], some [], some [], some [],
          some [.gapBlock ⟨.malformed, 0, false, ⟨65535, 0⟩⟩, .gapAckThreshold 65536],
          some [.chunkLength 12 65535 5], none] := by
  have fresh : (start {}).Fresh := Or.inl ⟨{}, rfl⟩
  exact ⟨fresh, visitAll_in_range fresh hostile, by decide +kernel⟩

end SctpTrace.Guarded
