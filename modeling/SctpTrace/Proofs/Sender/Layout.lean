import Mathlib.Data.List.Pairwise
import SctpTrace.Proofs.Reassembly.ArrivalOrder
import SctpTrace.Session.Chunks

/-!
How a sender lays user messages out on consecutive TSNs: the pieces of a message follow one another,
the first one marked as beginning and the last one as ending, and the next message follows the
last piece. No two pieces of a layout share a TSN (`unit_inj`), and a piece belongs to one message
(`placed_inj`).
-/
namespace SctpTrace.Sender

open Serial Reassembly Session

structure UserMessage where
  stream : UInt16
  sequence : UInt16
  unordered : Bool
  opening : Bytes
  others : List Bytes
  deriving DecidableEq, Repr

def UserMessage.pieces (m : UserMessage) : List Bytes := m.opening :: m.others

def UserMessage.bytes (m : UserMessage) : Bytes := m.pieces.flatten

structure Placed where
  message : UserMessage
  start : UInt32
  deriving DecidableEq, Repr

namespace Placed

def size (p : Placed) : Nat := p.message.pieces.length

def unit (p : Placed) (k : Nat) (payload : Bytes) : DataUnit where
  tsn := forward p.start k
  interleaved := false
  stream := p.message.stream
  sequence := p.message.sequence.toUInt32
  position := forward p.start k
  unordered := p.message.unordered
  beginning := k == 0
  ending := k + 1 == p.size
  payload := payload

def units (p : Placed) : List DataUnit := p.message.pieces.mapIdx p.unit

def run (p : Placed) : Run := ⟨p.start, forward p.start (p.size - 1)⟩

theorem size_pos (p : Placed) : 0 < p.size := by simp [size, UserMessage.pieces]

theorem length_units (p : Placed) : p.units.length = p.size := by simp [units, size]

theorem mem_units_iff {p : Placed} {u : DataUnit} :
    u ∈ p.units ↔ ∃ k payload, p.message.pieces[k]? = some payload ∧ p.unit k payload = u := by
  simp only [units, List.mem_mapIdx]
  constructor
  · rintro ⟨k, bound, rfl⟩
    exact ⟨k, _, List.getElem?_eq_getElem bound, rfl⟩
  · rintro ⟨k, payload, here, rfl⟩
    obtain ⟨bound, rfl⟩ := List.getElem?_eq_some_iff.mp here
    exact ⟨k, bound, rfl⟩

theorem payload_units (p : Placed) : p.units.map (·.payload) = p.message.pieces := by
  apply List.ext_getElem
  · simp [length_units, size]
  · intro k left right
    simp [units, unit]

theorem tsn_units (p : Placed) :
    p.units.map (·.tsn) = (List.range p.size).map (forward p.start) := by
  apply List.ext_getElem
  · simp [length_units]
  · intro k left right
    simp [units, unit]

end Placed

/-- The messages one after the other, from a first TSN on. -/
def place : UInt32 → List UserMessage → List Placed
  | _, [] => []
  | start, m :: rest => ⟨m, start⟩ :: place (forward start m.pieces.length) rest

def layout (start : UInt32) (messages : List UserMessage) : List DataUnit :=
  (place start messages).flatMap Placed.units

theorem tsn_layout (start : UInt32) (messages : List UserMessage) :
    (layout start messages).map (·.tsn) =
      (List.range (layout start messages).length).map (forward start) := by
  induction messages generalizing start with
  | nil => rfl
  | cons m rest ih =>
    have head : layout start (m :: rest) =
        (Placed.mk m start).units ++ layout (forward start m.pieces.length) rest := rfl
    rw [head, List.map_append, ih, Placed.tsn_units, List.length_append, Placed.length_units,
      List.range_add, List.map_append, List.map_map]
    congr 1
    apply List.map_congr_left
    intro k _
    simp only [Function.comp_apply, forward_add]
    rfl

variable {start : UInt32} {messages : List UserMessage} {p q : Placed} {u v : DataUnit}

theorem nodup_tsn_layout (fits : (layout start messages).length < 4294967296) :
    ((layout start messages).map (·.tsn)).Nodup := by
  rw [tsn_layout]
  refine List.pairwise_map.mpr (List.Pairwise.imp_of_mem ?_ List.nodup_range)
  intro j k hj hk different same
  rw [List.mem_range] at hj hk
  exact different (forward_inj (by omega) (by omega) same)

theorem mem_layout (member : p ∈ place start messages) (inside : u ∈ p.units) :
    u ∈ layout start messages :=
  List.mem_flatMap.mpr ⟨p, member, inside⟩

theorem unit_inj (fits : (layout start messages).length < 4294967296)
    (hu : u ∈ layout start messages) (hv : v ∈ layout start messages) (same : u.tsn = v.tsn) :
    u = v :=
  List.inj_on_of_nodup_map (nodup_tsn_layout fits) hu hv same

theorem disjoint_units (fits : (layout start messages).length < 4294967296) :
    (place start messages).Pairwise fun p q => List.Disjoint p.units q.units := by
  have distinct : (layout start messages).Nodup := (nodup_tsn_layout fits).of_map _
  exact (List.nodup_flatMap.mp distinct).2

theorem exists_unit (p : Placed) : ∃ u, u ∈ p.units :=
  ⟨p.unit 0 p.message.opening, Placed.mem_units_iff.mpr ⟨0, _, rfl, rfl⟩⟩

theorem nodup_place (fits : (layout start messages).length < 4294967296) :
    (place start messages).Nodup := by
  refine (disjoint_units fits).imp ?_
  rintro p q apart rfl
  obtain ⟨u, inside⟩ := exists_unit p
  exact apart inside inside

theorem placed_inj (fits : (layout start messages).length < 4294967296)
    (hp : p ∈ place start messages) (hq : q ∈ place start messages) (inP : u ∈ p.units)
    (inQ : u ∈ q.units) : p = q := by
  by_contra different
  have swap : Std.Symm fun p q : Placed => List.Disjoint p.units q.units :=
    ⟨fun _ _ apart => List.disjoint_symm apart⟩
  have apart := (disjoint_units fits).forall hp hq different
  exact apart inP inQ

theorem exists_placed (member : u ∈ layout start messages) :
    ∃ p ∈ place start messages, u ∈ p.units :=
  List.mem_flatMap.mp member

theorem size_le (member : p ∈ place start messages) :
    p.size ≤ (layout start messages).length := by
  have sub : p.units.Sublist (layout start messages) :=
    List.sublist_flatten_of_mem (List.mem_map_of_mem member)
  have := sub.length_le
  rwa [Placed.length_units] at this

theorem length_run (fits : (layout start messages).length < 4294967296)
    (member : p ∈ place start messages) : p.run.length = p.size := by
  have bound := size_le member
  have pos := p.size_pos
  rw [Run.length, Placed.run, distance_forward p.start (by omega)]
  omega

end SctpTrace.Sender
