import SctpTrace.Session.Chunks

/-!
A session: everything learned from the datagrams of a capture. A frame is analyzed once; another
pass over it answers from memory and changes nothing else.
-/
namespace SctpTrace

namespace Session

inductive FrameStatus where
  | notSeen
  | analyzed
  | replaying
  deriving DecidableEq, Repr

structure Remembered where
  facts : PacketFacts
  replayed : Bool
  deriving DecidableEq, Repr

def observeChunk (header : Wire.CommonHeader) (o : Observation) : Wire.Chunk → Observation
  | .init c => { o with sourceTag := c.initiateTag }
  | .initAck c => { o with sourceTag := c.initiateTag }
  | .abort true => { o with sourceTag := header.verificationTag, destinationTag := 0 }
  | .shutdownComplete true => { o with sourceTag := header.verificationTag, destinationTag := 0 }
  | _ => o

def decodable (chunks : List Wire.RawChunk) : List Wire.Chunk :=
  chunks.filterMap fun raw => raw.decode.toOption

def observation (d : Datagram) (p : Wire.Packet) : Observation :=
  (decodable p.chunks).foldl (observeChunk p.header)
    ⟨p.header.sourcePort, p.header.destinationPort, d.source, d.destination,
      p.header.verificationTag, 0⟩

def standsAlone (raw : Wire.RawChunk) : Bool :=
  match Wire.ChunkType.ofCode? raw.header.code with
  | some .init => true
  | some .initAck => true
  | some .shutdownComplete => true
  | _ => false

def bundlingFindings (chunks : List Wire.RawChunk) : List Finding :=
  if chunks.length < 2 then []
  else (chunks.filter standsAlone).map fun raw => .illegalBundling raw.header.code

def lengthFindings : Option Wire.WireError → List Finding
  | some (.invalidLength offset declared remaining) => [.chunkLength offset declared remaining]
  | _ => []

def captureFindings (d : Datagram) : List Finding :=
  if d.isCut then [.truncatedCapture d.data.length d.reported] else []

def trailingFindings (trailing : Nat) : List Finding :=
  if trailing = 0 then [] else [.trailingBytes trailing]

def packetFindings (d : Datagram) (p : Wire.Packet) : List Finding :=
  captureFindings d ++ lengthFindings p.lengthError ++ trailingFindings p.trailing ++
    bundlingFindings p.chunks

def packetTally (verdict : Checksum.Verdict) (p : Wire.Packet) : Tally :=
  { checksumMismatches := if verdict.status = .mismatched then 1 else 0
    malformedChunks := (lengthFindings p.lengthError).length }

def rejection (e : Wire.WireError) : String := "Malformed packet: " ++ e.message

end Session

structure Session where
  config : Config
  associations : AssociationTable
  tables : Session.Tables
  frames : Keyed FrameNumber Session.Remembered
  tally : Tally
  deriving DecidableEq, Repr

namespace Session

def start (config : Config) : Session :=
  ⟨config, .empty, ⟨.empty, .empty⟩, [], .zero⟩

def new (config : Config) : Except ConfigError Session := config.checked.map start

/-- Forgets what was learned, not the configuration and not the counts. -/
def reset (s : Session) : Session := { start s.config with tally := s.tally }

def frameStatus (s : Session) (frame : FrameNumber) : FrameStatus :=
  match Keyed.get? frame s.frames with
  | none => .notSeen
  | some entry => if entry.replayed then .replaying else .analyzed

def assign (s : Session) (d : Datagram) (p : Wire.Packet) : AssociationTable × Option Flow :=
  if s.config.indexing then s.associations.resolve d.frame false (observation d p)
  else (s.associations, none)

def sender (s : Session) (flow : Option Flow) : Transmission.Tracker × Option Nat :=
  match flow with
  | none => (s.tables.tracker, none)
  | some f =>
    if s.config.tsn.enabled then
      let (tracker, id) := s.tables.tracker.ensure f
      (tracker, some id)
    else (s.tables.tracker, none)

def take (s : Session) (d : Datagram) (p : Wire.Packet) : Session × PacketFacts :=
  let verdict := Checksum.verify d.data d.reported s.config.checksum
  let (associations, flow) := s.assign d p
  let (tracker, sender) := s.sender flow
  let ctx : Context := ⟨s.config, p.header, d.stamp, sender⟩
  let (tables, reports) := ctx.takeAll { s.tables with tracker := tracker } p.chunks
  let facts : PacketFacts :=
    ⟨d.frame, p.header.sourcePort, p.header.destinationPort, p.header.verificationTag, verdict,
      flow, reports.map (·.facts), packetFindings d p ++ reports.flatMap (·.findings)⟩
  ({ s with
      associations := associations
      tables := tables
      frames := Keyed.put d.frame ⟨facts, false⟩ s.frames
      tally := s.tally + packetTally verdict p + Tally.sum (reports.map (·.tally)) },
    facts)

/-- Analyzes a datagram, or answers the analysis of an earlier pass over its frame. A datagram too
short for the common header is refused and leaves no trace. -/
def visit (s : Session) (d : Datagram) : Session × Except Wire.WireError PacketFacts :=
  match Keyed.get? d.frame s.frames with
  | some entry =>
    ({ s with frames := Keyed.put d.frame { entry with replayed := true } s.frames },
      .ok entry.facts)
  | none =>
    match Wire.Packet.decode d.data with
    | .error e => (s, .error e)
    | .ok p =>
      let (s, facts) := s.take d p
      (s, .ok facts)

end Session

end SctpTrace
