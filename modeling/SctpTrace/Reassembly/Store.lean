import SctpTrace.Keyed
import SctpTrace.Reassembly.Fragments
import SctpTrace.Tally

/-!
Fragments of all user messages by their key.
-/
namespace SctpTrace.Reassembly

structure MessageKey where
  sourcePort : UInt16
  destinationPort : UInt16
  verificationTag : UInt32
  stream : UInt16
  /-- The stream sequence number of DATA, the message identifier of I-DATA. -/
  sequence : UInt32
  unordered : Bool
  deriving DecidableEq, Repr

def Addition.tally : Addition → Tally
  | .duplicate _ => { duplicateFragments := 1 }
  | _ => .zero

def Attempt.tally : Attempt → Tally
  | .completed _ => { messagesReassembled := 1 }
  | _ => .zero

structure Store where
  entries : Keyed MessageKey Fragments
  deriving DecidableEq, Repr

namespace Store

def empty : Store := ⟨[]⟩

def fragments? (s : Store) (key : MessageKey) : Option Fragments := Keyed.get? key s.entries

def size (s : Store) : Nat := s.entries.length

def add (s : Store) (key : MessageKey) (position : UInt32) (isFirst isLast : Bool)
    (payload : Bytes) (frame : FrameNumber) : Store × Addition :=
  let (known, addition) :=
    ((s.fragments? key).getD .empty).add position isFirst isLast payload frame
  (⟨Keyed.put key known s.entries⟩, addition)

def reassemble (s : Store) (key : MessageKey) (position : UInt32) (frame : FrameNumber) :
    Store × Attempt :=
  match s.fragments? key with
  | none => (s, .awaitingMore)
  | some known =>
    let (known, attempt) := known.reassemble position frame
    (⟨Keyed.put key known s.entries⟩, attempt)

end Store

end SctpTrace.Reassembly
