import SctpTrace.Capture
import SctpTrace.Serial

/-!
The fragments that share one key, and the messages made of them. Positions are numbers on the
circle of 32-bit words. A message is a run of consecutive positions from a first fragment to a
last one, with no boundary in between; its fragments are consumed when it is assembled.
-/
namespace SctpTrace.Reassembly

structure Fragment where
  position : UInt32
  frame : FrameNumber
  length : Nat
  isFirst : Bool
  isLast : Bool
  /-- None once the fragment is part of a message. -/
  payload : Option Bytes
  deriving DecidableEq, Repr

def Fragment.isConsumed (f : Fragment) : Bool := f.payload.isNone

def Fragment.consumed (f : Fragment) : Fragment := { f with payload := none }

structure Message where
  first : UInt32
  /-- Below `first` if the message passes the wrap. -/
  last : UInt32
  /-- The frame whose fragment completed the message. -/
  completedIn : FrameNumber
  /-- The frames that carried the fragments, in the order of the positions. -/
  frames : List FrameNumber
  data : Bytes
  deriving DecidableEq, Repr

def Message.contains (m : Message) (position : UInt32) : Bool :=
  Serial.onArc m.first m.last position

structure Fragments where
  /-- Positions of unconsumed first fragments, descending. -/
  firsts : List UInt32
  /-- Positions of unconsumed last fragments, ascending. -/
  lasts : List UInt32
  /-- In the order of their arrival. -/
  stored : List Fragment
  completed : List Message
  deriving DecidableEq, Repr

inductive Addition where
  | added
  /-- The same frame supplied the position before. -/
  | alreadyPresent
  /-- Another frame supplied the position before. -/
  | duplicate (earlierFrame : FrameNumber)
  deriving DecidableEq, Repr

inductive Attempt where
  | completed (message : Message)
  /-- The message was completed in this very frame before. -/
  | again (message : Message)
  | awaitingMore
  /-- The position belongs to a message that another frame completed. -/
  | partOf (completedIn : FrameNumber)
  deriving DecidableEq, Repr

def insertDescending (p : UInt32) (positions : List UInt32) : List UInt32 :=
  positions.takeWhile (fun q => p < q) ++ p :: positions.dropWhile (fun q => p < q)

def insertAscending (p : UInt32) (positions : List UInt32) : List UInt32 :=
  positions.takeWhile (fun q => q < p) ++ p :: positions.dropWhile (fun q => q < p)

def closest? (measure : UInt32 → Nat) : List UInt32 → Option UInt32
  | [] => none
  | p :: rest =>
    match closest? measure rest with
    | none => some p
    | some q => if measure q < measure p then some q else some p

def withoutRepeats : List FrameNumber → List FrameNumber
  | [] => []
  | a :: rest =>
    match withoutRepeats rest with
    | [] => [a]
    | b :: tail => if a = b then b :: tail else a :: b :: tail

inductive Walk where
  | arrived
  | blocked
  | unfinished
  deriving DecidableEq, Repr

structure Run where
  first : UInt32
  last : UInt32
  deriving DecidableEq, Repr

namespace Fragments

def empty : Fragments := ⟨[], [], [], []⟩

def fragment? (s : Fragments) (position : UInt32) : Option Fragment :=
  s.stored.find? fun f => f.position == position

def add (s : Fragments) (position : UInt32) (isFirst isLast : Bool) (payload : Bytes)
    (frame : FrameNumber) : Fragments × Addition :=
  match s.fragment? position with
  | some known => (s, if known.frame = frame then .alreadyPresent else .duplicate known.frame)
  | none =>
    ({ s with
        firsts := if isFirst then insertDescending position s.firsts else s.firsts
        lasts := if isLast then insertAscending position s.lasts else s.lasts
        stored := s.stored ++ [⟨position, frame, payload.length, isFirst, isLast, some payload⟩] },
      .added)

/-- From one position to the next until the last one, as long as nothing is missing, consumed or a
boundary of another message. -/
def walk (s : Fragments) (run : Run) : Nat → UInt32 → Walk
  | 0, _ => .unfinished
  | steps + 1, position =>
    match s.fragment? position with
    | none => .blocked
    | some f =>
      if f.isConsumed || (position != run.first && f.isFirst) then .blocked
      else if position = run.last then .arrived
      else if f.isLast then .blocked
      else s.walk run steps (position + 1)

/- A walk that does not come to an end within the stored fragments would have to meet one of them
   twice, which only a full circle allows. -/
def walkWhole (s : Fragments) (run : Run) : Walk := s.walk run (s.stored.length + 1) run.first

/-- The nearest first fragment at or before a position and the nearest last one at or after it, if
they bound a complete run. -/
def runAround? (s : Fragments) (position : UInt32) : Option Run := do
  let first ← closest? (fun p => Serial.distance p position) s.firsts
  let last ← closest? (fun p => Serial.distance position p) s.lasts
  if Serial.onArc first last position && s.walkWhole ⟨first, last⟩ == .arrived then
    some ⟨first, last⟩
  else none

def runFragments (s : Fragments) (run : Run) : List Fragment :=
  (Serial.arc run.first run.last).filterMap s.fragment?

def message (s : Fragments) (run : Run) (frame : FrameNumber) : Message :=
  let parts := s.runFragments run
  ⟨run.first, run.last, frame, withoutRepeats (parts.map (·.frame)),
    parts.flatMap fun f => f.payload.getD []⟩

def assemble (s : Fragments) (run : Run) (frame : FrameNumber) : Fragments :=
  { firsts := s.firsts.filter (· != run.first)
    lasts := s.lasts.filter (· != run.last)
    stored := s.stored.map fun f =>
      if Serial.onArc run.first run.last f.position then f.consumed else f
    completed := s.completed ++ [s.message run frame] }

/-- Completes the message around a position if all its fragments are there. A completed message is
handed out again only to the frame that completed it. -/
def reassemble (s : Fragments) (position : UInt32) (frame : FrameNumber) : Fragments × Attempt :=
  match s.completed.find? (·.contains position) with
  | some m => (s, if m.completedIn = frame then .again m else .partOf m.completedIn)
  | none =>
    match s.runAround? position with
    | none => (s, .awaitingMore)
    | some run => (s.assemble run frame, .completed (s.message run frame))

end Fragments

end SctpTrace.Reassembly
