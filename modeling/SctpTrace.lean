import SctpTrace.Bytes
import SctpTrace.Serial
import SctpTrace.Time
import SctpTrace.Address
import SctpTrace.Checksum.Verify
import SctpTrace.Wire.Packet
import SctpTrace.Association.Table
import SctpTrace.Transmission.Tracker
import SctpTrace.Reassembly.Store
import SctpTrace.Session.Basic
import SctpTrace.Json.Document
import SctpTrace.Config.Document
import SctpTrace.Decimal.Binary64
import SctpTrace.Config.Layers
import SctpTrace.Proofs.Sender.Delivery
import SctpTrace.Proofs.Isolation.Run
import SctpTrace.Proofs.Translation.Run
import SctpTrace.Proofs.Transmission.FirstFrame
import SctpTrace.Proofs.Association.Conversation
import SctpTrace.Proofs.Transmission.CumulativePoint
import SctpTrace.Proofs.Session.Counters
import SctpTrace.Proofs.Session.HandedOut
import SctpTrace.Proofs.Association.Stability
import SctpTrace.Proofs.Session.Reply
import SctpTrace.Proofs.Session.Joined
import SctpTrace.Proofs.Transmission.GapRange
import SctpTrace.Proofs.Wire.RoundTrip
import SctpTrace.Proofs.Guarded.Run
import SctpTrace.Proofs.Session.Core
import SctpTrace.Proofs.Session.Recorded
import SctpTrace.Proofs.Session.Touched
import SctpTrace.Proofs.Session.Retained
import SctpTrace.Proofs.Association.Scan
import SctpTrace.Proofs.Session.Limit
import SctpTrace.Proofs.Reassembly.Attempts
import SctpTrace.Proofs.Wire.Truncation
import SctpTrace.Proofs.Session.Inert
import SctpTrace.Proofs.Checksum.Corruption
import SctpTrace.Proofs.Reassembly.Walks
import SctpTrace.Proofs.Transmission.GapFindings
import SctpTrace.Proofs.Transmission.GapOrder
