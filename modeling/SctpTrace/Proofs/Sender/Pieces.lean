import SctpTrace.Proofs.Sender.Layout

/-!
What reassembly makes of the pieces of a layout. Whichever pieces came, the whole run around a piece
is the run of its message, and it is whole exactly if the message is complete.
-/
namespace SctpTrace.Sender

open Serial Reassembly Session

structure Sighting where
  unit : DataUnit
  frame : FrameNumber
  deriving DecidableEq, Repr

def Sighting.arrival (c : Sighting) : Arrival :=
  ⟨c.unit.position, c.frame, c.unit.beginning, c.unit.ending, c.unit.payload⟩

structure Path where
  sourcePort : UInt16
  destinationPort : UInt16
  verificationTag : UInt32
  source : Address
  destination : Address
  deriving DecidableEq, Repr

def Path.key (path : Path) (u : DataUnit) : MessageKey :=
  ⟨path.sourcePort, path.destinationPort, path.verificationTag, u.stream, u.sequence, u.unordered⟩

def alone (u : DataUnit) : Bool := u.beginning && u.ending

def fragmentsOf (path : Path) (key : MessageKey) (came : List Sighting) : List Arrival :=
  (came.filter fun c => !alone c.unit && path.key c.unit == key).map Sighting.arrival

def Complete (carried : List DataUnit) (p : Placed) : Bool := p.units.all fun u => u ∈ carried

def edgesAt (sent : List DataUnit) (t : UInt32) : Option Edges :=
  (sent.find? fun u => u.tsn == t).map fun u => ⟨u.beginning, u.ending⟩

/-- Each piece came once and is one of those sent. -/
structure Came (sent : List DataUnit) (came : List Sighting) : Prop where
  sent : ∀ c ∈ came, c.unit ∈ sent
  once : (came.map (·.unit.tsn)).Nodup

variable {start : UInt32} {messages : List UserMessage} {path : Path} {key : MessageKey}
  {came : List Sighting} {p q : Placed} {u v : DataUnit} {frame : FrameNumber}

theorem complete_iff {carried : List DataUnit} :
    Complete carried p = true ↔ ∀ u ∈ p.units, u ∈ carried := by
  simp [Complete]

theorem position_eq (member : u ∈ layout start messages) : u.position = u.tsn := by
  obtain ⟨p, -, inside⟩ := exists_placed member
  obtain ⟨k, payload, -, rfl⟩ := Placed.mem_units_iff.mp inside
  rfl

theorem key_eq (inside : u ∈ p.units) (other : v ∈ p.units) : path.key u = path.key v := by
  obtain ⟨j, payload, -, rfl⟩ := Placed.mem_units_iff.mp inside
  obtain ⟨k, payload', -, rfl⟩ := Placed.mem_units_iff.mp other
  rfl

theorem alone_iff (inside : u ∈ p.units) : alone u = true ↔ p.size = 1 := by
  obtain ⟨k, payload, here, rfl⟩ := Placed.mem_units_iff.mp inside
  obtain ⟨bound, -⟩ := List.getElem?_eq_some_iff.mp here
  have small : k < p.size := bound
  simp only [alone, Placed.unit, Bool.and_eq_true, beq_iff_eq]
  omega

theorem units_of_alone (inside : u ∈ p.units) (single : alone u = true) : p.units = [u] := by
  have one : p.units.length = 1 := by
    rw [Placed.length_units]
    exact (alone_iff inside).mp single
  obtain ⟨v, only⟩ := List.length_eq_one_iff.mp one
  rw [only] at inside ⊢
  rw [List.mem_singleton.mp inside]

theorem bytes_of_alone (inside : u ∈ p.units) (single : alone u = true) :
    p.message.bytes = u.payload := by
  have payloads := p.payload_units
  rw [units_of_alone inside single] at payloads
  rw [UserMessage.bytes, ← payloads]
  simp

theorem covers_run (fits : (layout start messages).length < 4294967296)
    (member : p ∈ place start messages) (inside : u ∈ p.units) : p.run.covers u.tsn = true := by
  obtain ⟨k, payload, here, rfl⟩ := Placed.mem_units_iff.mp inside
  obtain ⟨bound, -⟩ := List.getElem?_eq_some_iff.mp here
  apply Run.covers_forward
  rw [length_run fits member]
  exact bound

theorem arc_run (fits : (layout start messages).length < 4294967296)
    (member : p ∈ place start messages) : arc p.run.first p.run.last = p.units.map (·.tsn) := by
  have length := length_run fits member
  rw [Placed.tsn_units, arc, ← Run.length, length]
  rfl

theorem edgesAt_layout (fits : (layout start messages).length < 4294967296)
    (member : u ∈ layout start messages) :
    edgesAt (layout start messages) u.tsn = some ⟨u.beginning, u.ending⟩ := by
  have found := (find?_key_eq_some_iff (nodup_tsn_layout fits)).mpr ⟨member, rfl⟩
  rw [edgesAt, found]
  rfl

theorem whole_sent (fits : (layout start messages).length < 4294967296)
    (member : p ∈ place start messages) : p.run.Whole (edgesAt (layout start messages)) := by
  intro k bound
  rw [length_run fits member] at bound ⊢
  have here : p.message.pieces[k]? = some p.message.pieces[k] := List.getElem?_eq_getElem bound
  have inside : p.unit k p.message.pieces[k] ∈ p.units := Placed.mem_units_iff.mpr ⟨k, _, here, rfl⟩
  exact edgesAt_layout fits (mem_layout member inside)

theorem held?_fragmentsOf {t : UInt32} {a : Arrival} (from_sender : Came (layout start messages) came)
    (held : held? (fragmentsOf path key came) t = some a) :
    ∃ c ∈ came, c.unit ∈ layout start messages ∧ c.unit.tsn = t ∧ c.arrival = a := by
  have found := List.mem_of_find?_eq_some held
  have at_place : a.position = t := by simpa using List.find?_some held
  obtain ⟨c, kept, rfl⟩ := List.mem_map.mp found
  have member := (List.mem_filter.mp kept).1
  have sent := from_sender.sent c member
  exact ⟨c, member, sent, (position_eq sent).symm.trans at_place, rfl⟩

theorem edgesOf_fragmentsOf (fits : (layout start messages).length < 4294967296)
    (from_sender : Came (layout start messages) came) {t : UInt32} {e : Edges}
    (found : edgesOf (fragmentsOf path key came) t = some e) :
    edgesAt (layout start messages) t = some e := by
  obtain ⟨a, held, rfl⟩ := edgesOf_of_held? found
  obtain ⟨c, -, sent, rfl, rfl⟩ := held?_fragmentsOf from_sender held
  exact edgesAt_layout fits sent

/- The boundaries of what came are those of what was sent, and two whole runs around one piece are
   the same: pieces of neighbouring messages with the same key are never joined. -/
theorem whole_run_eq (fits : (layout start messages).length < 4294967296)
    (from_sender : Came (layout start messages) came) (member : p ∈ place start messages)
    (inside : u ∈ p.units) {run : Run} (whole : run.Whole (edgesOf (fragmentsOf path key came)))
    (around : run.covers u.tsn = true) : run = p.run := by
  have sent : run.Whole (edgesAt (layout start messages)) :=
    whole.mono fun _ _ found => edgesOf_fragmentsOf fits from_sender found
  exact Run.whole_unique sent around (whole_sent fits member) (covers_run fits member inside)

theorem held?_of_mem (from_sender : Came (layout start messages) came) {c : Sighting}
    (member : c ∈ came) (several : alone c.unit = false) :
    held? (fragmentsOf path (path.key c.unit) came) c.unit.tsn = some c.arrival := by
  have kept : c.arrival ∈ fragmentsOf path (path.key c.unit) came :=
    List.mem_map_of_mem (List.mem_filter.mpr ⟨member, by simp [several]⟩)
  have distinct : ((fragmentsOf path (path.key c.unit) came).map (·.position)).Nodup := by
    have sub : ((came.filter fun b => !alone b.unit && path.key b.unit == path.key c.unit).map
        (·.unit.tsn)).Nodup := from_sender.once.sublist (List.filter_sublist.map _)
    rw [fragmentsOf, List.map_map]
    have positions : (came.filter fun b => !alone b.unit && path.key b.unit == path.key c.unit).map
        ((·.position) ∘ Sighting.arrival) =
          (came.filter fun b => !alone b.unit && path.key b.unit == path.key c.unit).map
            (·.unit.tsn) := by
      apply List.map_congr_left
      intro b there
      exact position_eq (from_sender.sent b (List.mem_filter.mp there).1)
    rw [positions]
    exact sub
  exact (held?_eq_some_iff distinct).mpr
    ⟨kept, position_eq (from_sender.sent c member)⟩

theorem whole_iff_complete (path : Path) (fits : (layout start messages).length < 4294967296)
    (from_sender : Came (layout start messages) came) (member : p ∈ place start messages)
    (inside : u ∈ p.units) (several : alone u = false) :
    p.run.Whole (edgesOf (fragmentsOf path (path.key u) came)) ↔
      Complete (came.map (·.unit)) p = true := by
  rw [complete_iff]
  constructor
  · intro whole v other
    have found := whole.edges_at (covers_run fits member other)
    obtain ⟨a, held, -⟩ := edgesOf_of_held? found
    obtain ⟨c, there, sent, same, -⟩ := held?_fragmentsOf from_sender held
    rw [← unit_inj fits sent (mem_layout member other) same]
    exact List.mem_map_of_mem there
  · intro complete k bound
    have sent := whole_sent fits member k bound
    have covered := Run.covers_forward bound
    rw [← Run.mem_arc_iff, arc_run fits member] at covered
    obtain ⟨v, other, at_place⟩ := List.mem_map.mp covered
    obtain ⟨c, there, rfl⟩ := List.mem_map.mp (complete v other)
    have others_several : alone c.unit = false := by
      rw [Bool.eq_false_iff, Ne, alone_iff other, ← alone_iff inside, several]
      simp
    have held : held? (fragmentsOf path (path.key u) came) c.unit.tsn = some c.arrival := by
      rw [key_eq inside other]
      exact held?_of_mem from_sender there others_several
    rw [← at_place, edgesAt_layout fits (mem_layout member other)] at sent
    rw [← at_place, edgesOf, held]
    exact sent

theorem data_contentOf (path : Path) (fits : (layout start messages).length < 4294967296)
    (from_sender : Came (layout start messages) came) (member : p ∈ place start messages)
    (inside : u ∈ p.units) (several : alone u = false)
    (complete : Complete (came.map (·.unit)) p = true) :
    (contentOf (fragmentsOf path (path.key u) came) p.run).data = p.message.bytes := by
  have payloads : ∀ v ∈ p.units,
      (held? (fragmentsOf path (path.key u) came) v.tsn).map (·.payload) = some v.payload := by
    intro v other
    obtain ⟨c, there, rfl⟩ := List.mem_map.mp (complete_iff.mp complete v other)
    have others_several : alone c.unit = false := by
      rw [Bool.eq_false_iff, Ne, alone_iff other, ← alone_iff inside, several]
      simp
    rw [key_eq inside other, held?_of_mem from_sender there others_several]
    rfl
  have parts : ((arc p.run.first p.run.last).filterMap
      (held? (fragmentsOf path (path.key u) came))).map (·.payload) = p.message.pieces := by
    rw [arc_run fits member, List.filterMap_map, List.map_filterMap, ← p.payload_units,
      ← List.filterMap_eq_map]
    apply List.filterMap_congr
    exact payloads
  rw [UserMessage.bytes, ← parts, contentOf, ← List.flatMap_def]

end SctpTrace.Sender
