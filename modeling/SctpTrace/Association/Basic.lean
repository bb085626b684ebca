import SctpTrace.Capture

/-!
Associations and the relation by which a packet belongs to one. A packet shows the tag of its
destination in the common header, and the tag of its source only in INIT and INIT-ACK. Tag zero
means that the tag is not known and agrees with every tag.
-/
namespace SctpTrace

structure Observation where
  sourcePort : UInt16
  destinationPort : UInt16
  source : Address
  destination : Address
  destinationTag : UInt32
  sourceTag : UInt32
  deriving DecidableEq, Repr

/-- An association in the orientation of the packet that showed it first. -/
structure Association where
  index : Nat
  sourcePort : UInt16
  destinationPort : UInt16
  source : Address
  destination : Address
  destinationTag : UInt32
  sourceTag : UInt32
  firstFrame : FrameNumber
  deriving DecidableEq, Repr

def Association.isComplete (a : Association) : Bool := a.destinationTag != 0 && a.sourceTag != 0

/-- The tags of the two ends of a packet, destination first. -/
structure TagPair where
  destination : UInt32
  source : UInt32
  deriving DecidableEq, Repr

def Tag.agree (a b : UInt32) : Bool := a == b || a == 0 || b == 0

def Tag.confirmed (a b : UInt32) : Bool := a != 0 && a == b

def Tag.unknown (a b : UInt32) : Bool := a == 0 && b == 0

/- Without a confirmed tag, or while a tag is unknown to both sides, only the addresses tell
   unrelated packets apart. -/
def TagPair.agree (shown stored : TagPair) (addressesEqual : Bool) : Bool :=
  Tag.agree shown.destination stored.destination && Tag.agree shown.source stored.source &&
    ((Tag.confirmed shown.destination stored.destination ||
          Tag.confirmed shown.source stored.source) &&
        !(Tag.unknown shown.destination stored.destination ||
          Tag.unknown shown.source stored.source) ||
      addressesEqual)

def Observation.tags (o : Observation) : TagPair := ⟨o.destinationTag, o.sourceTag⟩

def Association.matchesForward (a : Association) (o : Observation) : Bool :=
  o.sourcePort == a.sourcePort && o.destinationPort == a.destinationPort &&
    o.tags.agree ⟨a.destinationTag, a.sourceTag⟩
      (o.source == a.source && o.destination == a.destination)

def Association.matchesReverse (a : Association) (o : Observation) : Bool :=
  o.sourcePort == a.destinationPort && o.destinationPort == a.sourcePort &&
    o.tags.agree ⟨a.sourceTag, a.destinationTag⟩
      (o.source == a.destination && o.destination == a.source)

def Association.matchesIn (a : Association) (o : Observation) : Direction → Bool
  | .forward => a.matchesForward o
  | .reverse => a.matchesReverse o

/-- The direction in which the packet belongs to the association, forward before reverse. -/
def Association.direction? (a : Association) (o : Observation) : Option Direction :=
  if a.matchesForward o then some .forward
  else if a.matchesReverse o then some .reverse
  else none

theorem Association.matchesIn_of_direction? {a : Association} {o : Observation} {d : Direction}
    (h : a.direction? o = some d) : a.matchesIn o d = true := by
  unfold Association.direction? at h
  split at h
  · cases h
    assumption
  · split at h
    · cases h
      assumption
    · cases h

theorem Association.direction?_eq_none_iff {a : Association} {o : Observation} :
    a.direction? o = none ↔ ∀ d, a.matchesIn o d = false := by
  unfold Association.direction?
  constructor
  · intro h d
    cases d <;> simp only [Association.matchesIn] <;> split at h <;> simp_all
  · intro h
    have forward := h .forward
    have reverse := h .reverse
    simp only [Association.matchesIn] at forward reverse
    simp [forward, reverse]

end SctpTrace
