import SctpTrace.Address
import SctpTrace.Bytes
import SctpTrace.Time

/-!
What a capture hands to the analysis: datagrams with the number and the time of their frame. A flow
is one direction of an association.
-/
namespace SctpTrace

abbrev FrameNumber := UInt32

structure Stamp where
  frame : FrameNumber
  time : Instant
  deriving DecidableEq, Repr

/-- Forward is the direction of the packet that showed the association first. -/
inductive Direction where
  | forward
  | reverse
  deriving DecidableEq, Repr

def Direction.opposite : Direction → Direction
  | forward => reverse
  | reverse => forward

@[simp] theorem Direction.opposite_opposite (d : Direction) : d.opposite.opposite = d := by
  cases d <;> rfl

theorem Direction.opposite_ne (d : Direction) : d.opposite ≠ d := by cases d <;> decide

structure Flow where
  index : Nat
  direction : Direction
  deriving DecidableEq, Repr

def Flow.opposite (f : Flow) : Flow := ⟨f.index, f.direction.opposite⟩

@[simp] theorem Flow.opposite_opposite (f : Flow) : f.opposite.opposite = f := by
  simp [Flow.opposite]

theorem Flow.opposite_ne (f : Flow) : f.opposite ≠ f := by
  intro same
  exact f.direction.opposite_ne (congrArg Flow.direction same)

structure Datagram where
  frame : FrameNumber
  time : Instant
  source : Address
  destination : Address
  /-- The captured octets, from the common header on. -/
  data : Bytes
  /-- The length on the wire, more than was captured if the capture is cut. -/
  reported : Nat
  deriving DecidableEq, Repr

def Datagram.stamp (d : Datagram) : Stamp := ⟨d.frame, d.time⟩

def Datagram.isCut (d : Datagram) : Bool := d.data.length < d.reported

end SctpTrace
