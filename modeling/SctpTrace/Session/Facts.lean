import SctpTrace.Association.Table
import SctpTrace.Checksum.Verify
import SctpTrace.Reassembly.Store
import SctpTrace.Transmission.Tracker
import SctpTrace.Wire.Packet

/-!
What the analysis of one datagram reports: facts for each chunk, what became of its user data, and
findings that never stop the analysis.
-/
namespace SctpTrace.Session

inductive Delivery where
  /-- A message in one piece. -/
  | message (data : Bytes)
  /-- The last missing fragment arrived. -/
  | reassembled (data : Bytes) (frames : List FrameNumber)
  /-- Reassembly is off; the first fragment is passed on as it is. -/
  | firstFragment (data : Bytes)
  | awaitingFragments
  | partOfMessage (completedIn : FrameNumber)
  | duplicateFragment (earlierFrame : FrameNumber)
  | retransmission
  /-- Reassembly is off and the fragment is not the first one. -/
  | suppressed
  deriving DecidableEq, Repr

def Delivery.payload? : Delivery → Option Bytes
  | message data => some data
  | reassembled data _ => some data
  | firstFragment data => some data
  | _ => none

inductive Finding where
  | truncatedCapture (captured reported : Nat)
  | chunkLength (offset : Nat) (declared : UInt16) (remaining : Nat)
  | trailingBytes (length : Nat)
  /-- A chunk that must stand alone in its packet does not. -/
  | illegalBundling (code : UInt8)
  | malformedChunk (offset : Nat) (code : UInt8) (reason : Wire.WireError)
  | retransmittedAfterAck (tsn : UInt32) (ackedIn : FrameNumber)
  | retransmissionLimit (tsn : UInt32) (count : Nat)
  | duplicateFragment (tsn : UInt32) (earlierFrame : FrameNumber)
  | gapBlock (issue : Transmission.GapIssue)
  | gapAckThreshold (gapAcked : Nat)
  deriving DecidableEq, Repr

structure DataFacts where
  tsn : UInt32
  interleaved : Bool
  stream : UInt16
  /-- The stream sequence number of DATA, the message identifier of I-DATA. -/
  sequence : UInt32
  unordered : Bool
  beginning : Bool
  ending : Bool
  length : Nat
  /-- None if TSNs are not tracked. -/
  transmission : Option Transmission.Outcome
  delivery : Delivery
  deriving DecidableEq, Repr

inductive ChunkFacts where
  | data (facts : DataFacts)
  | sack (facts : Transmission.SackFacts)
  /-- `baselineSet`: the initial TSN became the baseline of the sender. -/
  | init (ack : Bool) (initiateTag initialTsn : UInt32) (baselineSet : Bool)
  | abort (reflected : Bool)
  | shutdownComplete (reflected : Bool)
  | other (code : UInt8) (length : UInt16)
  | malformed (code : UInt8) (reason : Wire.WireError)
  deriving DecidableEq, Repr

structure PacketFacts where
  frame : FrameNumber
  sourcePort : UInt16
  destinationPort : UInt16
  verificationTag : UInt32
  checksum : Checksum.Verdict
  flow : Option Flow
  chunks : List ChunkFacts
  findings : List Finding
  deriving DecidableEq, Repr

def ChunkFacts.data? : ChunkFacts → Option DataFacts
  | data facts => some facts
  | _ => none

def ChunkFacts.sack? : ChunkFacts → Option Transmission.SackFacts
  | sack facts => some facts
  | _ => none

def PacketFacts.data (p : PacketFacts) : List DataFacts := p.chunks.filterMap (·.data?)

def PacketFacts.sacks (p : PacketFacts) : List Transmission.SackFacts :=
  p.chunks.filterMap (·.sack?)

end SctpTrace.Session
