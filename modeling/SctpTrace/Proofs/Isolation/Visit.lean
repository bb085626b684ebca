import SctpTrace.Proofs.Isolation.Chunks

/-!
Two sessions of which the smaller one sees the traffic of some port pairs only. A visit on one of the
pairs keeps the smaller session a part of the larger one and is answered the same, up to the places;
a visit outside of the pairs changes nothing that the smaller one holds.
-/
namespace SctpTrace.Isolation

open Session

/-- The same facts but for the place of the association. -/
def FactsAt (places : List Nat) (p q : PacketFacts) : Prop :=
  Option.Rel (FlowAt places) p.flow q.flow ∧ q = { p with flow := q.flow }

def AnswerAt (places : List Nat) : Answer → Answer → Prop
  | .ok p, .ok q => FactsAt places p q
  | .error e, .error e' => e' = e
  | _, _ => False

structure SessionSim (S : Set (Sym2 UInt16)) (own : FrameNumber → Prop) (places spots : List Nat)
    (small big : Session) : Prop where
  config : big.config = small.config
  table : TableSim S own places small.associations big.associations
  tables : TablesSim S places spots big.associations.associations.length small.tables big.tables
  frames : ∀ frame, own frame →
    Option.Rel (fun a b => FactsAt places a.facts b.facts) (Keyed.get? frame small.frames)
      (Keyed.get? frame big.frames)

def onPairs (S : Set (Sym2 UInt16)) [DecidablePred (· ∈ S)] (d : Datagram) : Bool :=
  match Wire.Packet.decode d.data with
  | .ok p => decide (p.header.ports ∈ S)
  | .error _ => false

variable {S : Set (Sym2 UInt16)} {own : FrameNumber → Prop} {places spots : List Nat}
  {small big : Session} {d : Datagram} {p : Wire.Packet}

theorem FactsAt.append {f g : PacketFacts} (same : FactsAt places f g) (more : List Nat) :
    FactsAt (places ++ more) f g :=
  ⟨rel_append same.1 more, same.2⟩

theorem AnswerAt.append {a b : Answer} (same : AnswerAt places a b) (more : List Nat) :
    AnswerAt (places ++ more) a b := by
  cases a with
  | ok f =>
    cases b with
    | ok g => exact FactsAt.append same more
    | error e => exact same
  | error e =>
    cases b with
    | ok g => exact same
    | error e' => exact same

theorem sessionSim_start (S : Set (Sym2 UInt16)) (own : FrameNumber → Prop) (config : Config) :
    SessionSim S own [] [] (start config) (start config) :=
  ⟨rfl, tableSim_empty S own, ⟨trackerSim_empty _, fun _ _ => rfl⟩, fun _ _ => .none⟩

theorem ports_of_observation (d : Datagram) (p : Wire.Packet) :
    (observation d p).sourcePort = p.header.sourcePort ∧
      (observation d p).destinationPort = p.header.destinationPort := by
  have kept : ∀ (cs : List Wire.Chunk) (o : Observation),
      (cs.foldl (observeChunk p.header) o).sourcePort = o.sourcePort ∧
        (cs.foldl (observeChunk p.header) o).destinationPort = o.destinationPort := by
    intro cs
    induction cs with
    | nil => exact fun _ => ⟨rfl, rfl⟩
    | cons c rest ih =>
      intro o
      obtain ⟨source, destination⟩ := ih (observeChunk p.header o c)
      rw [List.foldl_cons, source, destination]
      unfold observeChunk
      split <;> exact ⟨rfl, rfl⟩
  exact kept _ _

theorem ports_observation (d : Datagram) (p : Wire.Packet) :
    (observation d p).ports = p.header.ports := by
  obtain ⟨source, destination⟩ := ports_of_observation d p
  rw [Observation.ports, source, destination]
  rfl

namespace SessionSim

theorem length_le_assign (s : Session) (d : Datagram) (p : Wire.Packet) :
    s.associations.associations.length ≤ (s.assign d p).1.associations.length := by
  unfold Session.assign
  split
  · exact TableSim.length_le_resolve _ _ _ _
  · exact Nat.le_refl _

theorem assign (sim : SessionSim S own places spots small big) (inside : p.header.ports ∈ S)
    (ownFrame : own d.frame) :
    ∃ more, (∀ i ∈ more, big.associations.associations.length ≤ i) ∧
      TableSim S own (places ++ more) (small.assign d p).1 (big.assign d p).1 ∧
      Option.Rel (FlowAt (places ++ more)) (small.assign d p).2 (big.assign d p).2 := by
  rw [← ports_observation d p] at inside
  unfold Session.assign
  rw [sim.config]
  split
  · exact sim.table.resolve inside ownFrame
  · refine ⟨[], ?_, ?_, .none⟩
    · intro i absent
      cases absent
    · rw [List.append_nil]
      exact sim.table

theorem assign_other (sim : SessionSim S own places spots small big)
    (outside : p.header.ports ∉ S) (otherFrame : ¬ own d.frame) :
    TableSim S own places small.associations (big.assign d p).1 ∧
      ∀ g, (big.assign d p).2 = some g →
        Foreign places (big.assign d p).1.associations.length g := by
  rw [← ports_observation d p] at outside
  unfold Session.assign
  split
  · exact sim.table.resolve_other outside otherFrame
  · refine ⟨sim.table, ?_⟩
    intro g absent
    cases absent

variable {bound : Nat}

theorem sender (tracker : TrackerSim places spots bound small.tables.tracker big.tables.tracker)
    (config : big.config = small.config) {flow flow' : Option Flow}
    (same : Option.Rel (FlowAt places) flow flow') (increasing : places.Pairwise (· < ·))
    (known : ∀ i ∈ places, i < bound) :
    ∃ further, TrackerSim places (spots ++ further) bound (small.sender flow).1
        (big.sender flow').1 ∧
      Option.Rel (At (spots ++ further)) (small.sender flow).2 (big.sender flow').2 := by
  cases same with
  | none =>
    refine ⟨[], ?_, .none⟩
    rw [List.append_nil]
    exact tracker
  | some there =>
    simp only [Session.sender, config]
    split
    · obtain ⟨further, after, place⟩ := tracker.ensure there increasing (known _ there.1.mem)
      exact ⟨further, after, .some place⟩
    · refine ⟨[], ?_, .none⟩
      rw [List.append_nil]
      exact tracker

theorem sender_other {small : Transmission.Tracker}
    (tracker : TrackerSim places spots bound small big.tables.tracker) {flow : Option Flow}
    (foreign : ∀ g, flow = some g → Foreign places bound g) :
    TrackerSim places spots bound small (big.sender flow).1 ∧
      ∀ i, (big.sender flow).2 = some i → i ∉ spots := by
  cases flow with
  | none =>
    refine ⟨tracker, ?_⟩
    intro i absent
    cases absent
  | some g =>
    obtain ⟨after, outside⟩ := tracker.ensure_other (foreign g rfl)
    simp only [Session.sender]
    split
    · refine ⟨after, ?_⟩
      intro i here
      cases here
      exact outside
    · refine ⟨tracker, ?_⟩
      intro i absent
      cases absent

theorem take (sim : SessionSim S own places spots small big) (inside : p.header.ports ∈ S)
    (ownFrame : own d.frame) :
    ∃ more further,
      SessionSim S own (places ++ more) (spots ++ further) (small.take d p).1 (big.take d p).1 ∧
        FactsAt (places ++ more) (small.take d p).2 (big.take d p).2 := by
  obtain ⟨more, beyond, table, flow⟩ := sim.assign inside ownFrame
  have grown := sim.tables.tracker.grow beyond (length_le_assign big d p)
  obtain ⟨further, tracker, mine⟩ := sender grown sim.config flow table.members.increasing
    fun i => table.members.place_lt
  have ready : TablesSim S (places ++ more) (spots ++ further)
      (big.assign d p).1.associations.length
      { small.tables with tracker := (small.sender (small.assign d p).2).1 }
      { big.tables with tracker := (big.sender (big.assign d p).2).1 } :=
    ⟨tracker, sim.tables.store⟩
  obtain ⟨tables, reports⟩ := ready.takeAll
    ⟨small.config, p.header, d.stamp, (small.sender (small.assign d p).2).2⟩ inside mine p.chunks
  have reported : (big.taken d p).2 = (small.taken d p).2 := by
    simp only [taken, sim.config]
    exact reports
  have after : TablesSim S (places ++ more) (spots ++ further)
      (big.assign d p).1.associations.length (small.taken d p).1 (big.taken d p).1 := by
    simp only [taken, sim.config]
    exact tables
  have facts : FactsAt (places ++ more) (small.take d p).2 (big.take d p).2 := by
    refine ⟨flow, ?_⟩
    rw [facts_take, facts_take, reported, sim.config]
  refine ⟨more, further, ⟨sim.config, table, after, ?_⟩, facts⟩
  intro frame ownToo
  rw [(take_eq d p).2.2.2, (take_eq d p).2.2.2, Keyed.get?_put, Keyed.get?_put]
  split
  · exact .some facts
  · have memory := sim.frames frame ownToo
    generalize Keyed.get? frame small.frames = x, Keyed.get? frame big.frames = y at memory
    cases memory with
    | none => exact .none
    | some here => exact .some (here.append more)

theorem take_other (sim : SessionSim S own places spots small big)
    (outside : p.header.ports ∉ S) (otherFrame : ¬ own d.frame) :
    SessionSim S own places spots small (big.take d p).1 := by
  obtain ⟨table, foreign⟩ := sim.assign_other outside otherFrame
  have grown := sim.tables.tracker.grow
    (fun i (absent : i ∈ []) => absurd absent List.not_mem_nil) (length_le_assign big d p)
  rw [List.append_nil] at grown
  obtain ⟨tracker, mine⟩ := sender_other grown foreign
  have ready : TablesSim S places spots (big.assign d p).1.associations.length small.tables
      { big.tables with tracker := (big.sender (big.assign d p).2).1 } :=
    ⟨tracker, sim.tables.store⟩
  have after : TablesSim S places spots (big.assign d p).1.associations.length small.tables
      (big.taken d p).1 :=
    ready.takeAll_other ⟨big.config, p.header, d.stamp, (big.sender (big.assign d p).2).2⟩ outside
      mine p.chunks
  refine ⟨sim.config, table, after, ?_⟩
  intro frame ownFrame
  have apart : d.frame ≠ frame := by
    rintro rfl
    exact otherFrame ownFrame
  rw [(take_eq d p).2.2.2, Keyed.get?_put, if_neg apart]
  exact sim.frames frame ownFrame

variable [DecidablePred (· ∈ S)]

theorem visit (sim : SessionSim S own places spots small big) (inside : onPairs S d = true)
    (ownFrame : own d.frame) :
    ∃ more further,
      SessionSim S own (places ++ more) (spots ++ further) (small.visit d).1 (big.visit d).1 ∧
        AnswerAt (places ++ more) (small.visit d).2 (big.visit d).2 := by
  have memory := sim.frames d.frame ownFrame
  unfold Session.visit
  generalize known : Keyed.get? d.frame small.frames = x at memory ⊢
  generalize known' : Keyed.get? d.frame big.frames = y at memory ⊢
  cases memory with
  | some same =>
    refine ⟨[], [], ?_, ?_⟩
    · rw [List.append_nil, List.append_nil]
      refine ⟨sim.config, sim.table, sim.tables, ?_⟩
      intro frame ownToo
      rw [Keyed.get?_put, Keyed.get?_put]
      split
      · exact .some same
      · exact sim.frames frame ownToo
    · rw [List.append_nil]
      exact same
  | none =>
    unfold onPairs at inside
    cases decoded : Wire.Packet.decode d.data with
    | error e =>
      rw [decoded] at inside
      cases inside
    | ok p =>
      rw [decoded] at inside
      exact sim.take (of_decide_eq_true inside) ownFrame

theorem visit_other (sim : SessionSim S own places spots small big) (outside : onPairs S d = false)
    (otherFrame : ¬ own d.frame) : SessionSim S own places spots small (big.visit d).1 := by
  unfold Session.visit
  cases known : Keyed.get? d.frame big.frames with
  | some entry =>
    refine ⟨sim.config, sim.table, sim.tables, ?_⟩
    intro frame ownFrame
    have apart : d.frame ≠ frame := by
      rintro rfl
      exact otherFrame ownFrame
    rw [Keyed.get?_put, if_neg apart]
    exact sim.frames frame ownFrame
  | none =>
    unfold onPairs at outside
    cases decoded : Wire.Packet.decode d.data with
    | error e => exact sim
    | ok p =>
      rw [decoded] at outside
      exact sim.take_other (of_decide_eq_false outside) otherFrame

end SessionSim

end SctpTrace.Isolation
