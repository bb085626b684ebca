import SctpTrace.Config.Basic
import SctpTrace.Session.Facts

/-!
The analysis of the chunks of one packet, one after the other. Data goes to the sender's half and,
if it is new, to reassembly; a SACK goes to the peer of the sender's half; INIT may set the
baseline.
-/
namespace SctpTrace.Session

open Wire

structure DataUnit where
  tsn : UInt32
  interleaved : Bool
  stream : UInt16
  sequence : UInt32
  /-- The order of reassembly: the TSN, or the fragment number of I-DATA. -/
  position : UInt32
  unordered : Bool
  beginning : Bool
  ending : Bool
  payload : Bytes
  deriving DecidableEq, Repr

def DataUnit.ofData (c : DataChunk) : DataUnit :=
  ⟨c.tsn, false, c.stream, c.sequence.toUInt32, c.tsn, c.unordered, c.beginning, c.ending,
    c.payload⟩

def DataUnit.ofInterleaved (c : InterleavedChunk) : DataUnit :=
  ⟨c.tsn, true, c.stream, c.messageId, c.number, c.unordered, c.beginning, c.ending, c.payload⟩

structure Context where
  config : Config
  header : CommonHeader
  stamp : Stamp
  sender : Option Nat
  deriving DecidableEq, Repr

structure Tables where
  tracker : Transmission.Tracker
  store : Reassembly.Store
  deriving DecidableEq, Repr

structure ChunkReport where
  facts : ChunkFacts
  findings : List Finding
  tally : Tally
  deriving DecidableEq, Repr

structure DeliveryReport where
  store : Reassembly.Store
  delivery : Delivery
  findings : List Finding
  tally : Tally
  deriving DecidableEq, Repr

def Context.messageKey (ctx : Context) (data : DataUnit) : Reassembly.MessageKey :=
  ⟨ctx.header.sourcePort, ctx.header.destinationPort, ctx.header.verificationTag, data.stream,
    data.sequence, data.unordered⟩

def Delivery.ofAttempt : Reassembly.Attempt → Delivery
  | .completed m => .reassembled m.data m.frames
  | .again m => .reassembled m.data m.frames
  | .awaitingMore => .awaitingFragments
  | .partOf completedIn => .partOfMessage completedIn

def Context.deliverFragment (ctx : Context) (store : Reassembly.Store) (data : DataUnit) :
    DeliveryReport :=
  let key := ctx.messageKey data
  let frame := ctx.stamp.frame
  let (stored, addition) :=
    store.add key data.position data.beginning data.ending data.payload frame
  match addition with
  | .duplicate earlier =>
    ⟨stored, .duplicateFragment earlier, [.duplicateFragment data.tsn earlier],
      addition.tally⟩
  | _ =>
    let (joined, attempt) := stored.reassemble key data.position frame
    ⟨joined, .ofAttempt attempt, [], attempt.tally⟩

def Context.deliver (ctx : Context) (store : Reassembly.Store) (data : DataUnit) :
    DeliveryReport :=
  if data.beginning && data.ending then ⟨store, .message data.payload, [], .zero⟩
  else if ctx.config.reassembly.enabled then ctx.deliverFragment store data
  else if data.beginning then ⟨store, .firstFragment data.payload, [], .zero⟩
  else ⟨store, .suppressed, [], .zero⟩

/-- The limit is reported by the first retransmission that is not retained. -/
def retransmissionFindings (cap : Nat) (tsn : UInt32) (r : Transmission.Retransmission) :
    List Finding :=
  (match r.afterAckIn with
    | some frame => [.retransmittedAfterAck tsn frame]
    | none => []) ++
  (if r.historyTruncated && r.count == cap + 1 then [.retransmissionLimit tsn r.count] else [])

def transmissionFindings (cap : Nat) (tsn : UInt32) (o : Option Transmission.Outcome) :
    List Finding :=
  match o.bind (·.retransmission) with
  | some r => retransmissionFindings cap tsn r
  | none => []

def Context.transmit (ctx : Context) (tracker : Transmission.Tracker) (tsn : UInt32) :
    Transmission.Tracker × Option Transmission.Outcome :=
  match ctx.sender with
  | none => (tracker, none)
  | some id => tracker.transmit id tsn ctx.stamp ctx.config.tsn.maxRetransmissionsTracked

def Context.takeData (ctx : Context) (tables : Tables) (data : DataUnit) :
    Tables × ChunkReport :=
  let (tracker, transmission) := ctx.transmit tables.tracker data.tsn
  let delivered :=
    if transmission.any (·.isRetransmission) then ⟨tables.store, .retransmission, [], .zero⟩
    else ctx.deliver tables.store data
  let facts : DataFacts :=
    ⟨data.tsn, data.interleaved, data.stream, data.sequence, data.unordered, data.beginning,
      data.ending, data.payload.length, transmission, delivered.delivery⟩
  let found :=
    transmissionFindings ctx.config.tsn.maxRetransmissionsTracked data.tsn transmission
  let counted := (transmission.map (·.tally)).getD .zero
  (⟨tracker, delivered.store⟩,
    ⟨.data facts, found ++ delivered.findings, counted + delivered.tally⟩)

def sackFindings (facts : Transmission.SackFacts) : List Finding :=
  facts.issues.map .gapBlock ++
    (if facts.thresholdExceeded then [.gapAckThreshold facts.gapAcked] else [])

def Context.takeSack (ctx : Context) (tables : Tables) (chunk : SackChunk)
    (nonRenegable : Bool) : Tables × ChunkReport :=
  let (tracker, facts) :=
    tables.tracker.sack (ctx.sender.bind tables.tracker.peer?) ctx.config.ackLimits chunk
      nonRenegable ctx.stamp
  ({ tables with tracker := tracker }, ⟨.sack facts, sackFindings facts, facts.tally⟩)

def Context.takeInit (ctx : Context) (tables : Tables) (chunk : InitChunk) (ack : Bool) :
    Tables × ChunkReport :=
  let (tracker, set) :=
    match ctx.sender with
    | none => (tables.tracker, none)
    | some id => tables.tracker.setBaseline id chunk.initialTsn
  ({ tables with tracker := tracker },
    ⟨.init ack chunk.initiateTag chunk.initialTsn (set.getD false), [], .zero⟩)

def Context.takeChunk (ctx : Context) (tables : Tables) : Chunk → Tables × ChunkReport
  | .data c => ctx.takeData tables (.ofData c)
  | .interleaved c => ctx.takeData tables (.ofInterleaved c)
  | .sack c => ctx.takeSack tables c false
  | .nrSack c => ctx.takeSack tables c true
  | .init c => ctx.takeInit tables c false
  | .initAck c => ctx.takeInit tables c true
  | .abort reflected => (tables, ⟨.abort reflected, [], .zero⟩)
  | .shutdownComplete reflected => (tables, ⟨.shutdownComplete reflected, [], .zero⟩)
  | .other code length => (tables, ⟨.other code length, [], .zero⟩)

def malformedReport (raw : RawChunk) (reason : WireError) : ChunkReport :=
  ⟨.malformed raw.header.code reason, [.malformedChunk raw.offset raw.header.code reason],
    { malformedChunks := 1 }⟩

/-- A chunk that cannot be decoded is reported and changes nothing. -/
def Context.takeRaw (ctx : Context) (tables : Tables) (raw : RawChunk) :
    Tables × ChunkReport :=
  match raw.decode with
  | .ok chunk => ctx.takeChunk tables chunk
  | .error reason => (tables, malformedReport raw reason)

def Context.takeAll (ctx : Context) : Tables → List RawChunk → Tables × List ChunkReport
  | tables, [] => (tables, [])
  | tables, raw :: rest =>
    let (tables, report) := ctx.takeRaw tables raw
    let (tables, reports) := ctx.takeAll tables rest
    (tables, report :: reports)

end SctpTrace.Session
