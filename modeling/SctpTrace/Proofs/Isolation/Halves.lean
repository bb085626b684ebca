import SctpTrace.Proofs.Isolation.Table
import SctpTrace.Transmission.Tracker

/-!
The halves of the flows on some port pairs, with and without other traffic. What a half learns does
not depend on its names, that is on its flow and on the place of its peer (`Half.Local`).
-/
namespace SctpTrace

namespace Transmission.Half

def relabel (h : Half) (flow : Flow) (peer : Option Nat) : Half := { h with flow := flow, peer := peer }

/-- Neither changes the names of a half nor depends on them. -/
def Local {β : Type} (step : Half → Half × β) : Prop :=
  ∀ h flow peer, step (h.relabel flow peer) = ((step h).1.relabel flow peer, (step h).2)

theorem Local.kept {β : Type} {step : Half → Half × β} (kept : Local step) (h : Half) :
    (step h).1 = (step h).1.relabel h.flow h.peer :=
  congrArg Prod.fst (kept h h.flow h.peer)

theorem Local.flow {β : Type} {step : Half → Half × β} (kept : Local step) (h : Half) :
    (step h).1.flow = h.flow := by
  rw [kept.kept h]
  rfl

theorem Local.peer {β : Type} {step : Half → Half × β} (kept : Local step) (h : Half) :
    (step h).1.peer = h.peer := by
  rw [kept.kept h]
  rfl

theorem local_transmit (tsn : UInt32) (stamp : Stamp) (cap : Nat) :
    Local fun h => h.transmit tsn stamp cap := by
  intro h flow peer
  simp only [transmit, recordAt, relabel]
  split
  · rfl
  · split <;> rfl

theorem local_setBaseline (tsn : UInt32) : Local fun h => h.setBaseline tsn := by
  intro h flow peer
  simp only [setBaseline, relabel]
  split <;> rfl

theorem local_cumulativeAck (limits : AckLimits) (cumulative : UInt32) (stamp : Stamp) :
    Local fun h => h.cumulativeAck limits cumulative stamp := by
  intro h flow peer
  have relative : (h.relabel flow peer).relative? cumulative = h.relative? cumulative := rfl
  have advance : (h.relabel flow peer).advance = h.advance := rfl
  simp only [cumulativeAck, relative, advance]
  split
  · rfl
  · split
    · rfl
    · split <;> rfl

theorem local_gapAck (limits : AckLimits) (cumulative : UInt32) (block : Wire.GapBlock)
    (stamp : Stamp) (kind : AckKind) : Local fun h => h.gapAck limits cumulative block stamp kind := by
  intro h flow peer
  have relative : (h.relabel flow peer).relative? cumulative = h.relative? cumulative := rfl
  simp only [gapAck, relative]
  split
  · rfl
  · split
    · rfl
    · split <;> rfl

theorem local_gapAcks (limits : AckLimits) (cumulative : UInt32) (stamp : Stamp) (kind : AckKind)
    (blocks : List Wire.GapBlock) :
    Local fun h => gapAcks limits cumulative stamp kind h blocks := by
  induction blocks with
  | nil =>
    intro h flow peer
    rfl
  | cons block rest ih =>
    intro h flow peer
    have first := local_gapAck limits cumulative block stamp kind h flow peer
    have later := ih (h.gapAck limits cumulative block stamp kind).1 flow peer
    simp only at first later
    simp only [gapAcks, first, later]

theorem local_sack (limits : AckLimits) (chunk : Wire.SackChunk) (nonRenegable : Bool)
    (stamp : Stamp) : Local fun h => h.sack limits chunk nonRenegable stamp := by
  intro h flow peer
  have point := local_cumulativeAck limits chunk.cumulative stamp h flow peer
  have gaps := local_gapAcks limits chunk.cumulative stamp .gap chunk.gaps
  have kept := local_gapAcks limits chunk.cumulative stamp .nonRenegableGap chunk.nonRenegableGaps
  simp only [Local] at point gaps kept
  simp only [sack, applySack, point, gaps, kept]

end Transmission.Half

namespace Isolation

open Transmission

structure HalfAt (places spots : List Nat) (h h' : Half) : Prop where
  flow : FlowAt places h.flow h'.flow
  peer : Option.Rel (At spots) h.peer h'.peer
  same : h' = h.relabel h'.flow h'.peer

/-- The halves of the associations at the places are those of the smaller tracker. The peers of the
other halves are other halves. -/
structure TrackerSim (places spots : List Nat) (bound : Nat) (small big : Tracker) : Prop where
  members : Embeds (HalfAt places spots) (fun h => h.flow.index ∈ places) spots small.halves
    big.halves
  flows : ∀ h ∈ big.halves, h.flow.index < bound
  peers : ∀ i h, big.halves[i]? = some h → i ∉ spots → ∀ p, h.peer = some p →
    p < big.halves.length ∧ p ∉ spots

variable {places spots : List Nat} {bound : Nat} {small big : Tracker} {f g : Flow} {i j : Nat}
  {stamp : Stamp}

theorem trackerSim_empty (bound : Nat) : TrackerSim [] [] bound .empty .empty := by
  refine ⟨.nil _ _, ?_, ?_⟩
  · intro h absent
    cases absent
  · intro i h found
    cases found

theorem HalfAt.append {h h' : Half} (same : HalfAt places spots h h') (more further : List Nat) :
    HalfAt (places ++ more) (spots ++ further) h h' := by
  refine ⟨same.flow.append more, ?_, same.same⟩
  have peer := same.peer
  generalize h.peer = x, h'.peer = y at peer
  cases peer with
  | none => exact .none
  | some there => exact .some (there.append further)

theorem HalfAt.step {β : Type} {step : Half → Half × β} {h h' : Half} (kept : Half.Local step)
    (same : HalfAt places spots h h') :
    HalfAt places spots (step h).1 (step h').1 ∧ (step h').2 = (step h).2 := by
  have related := kept h h'.flow h'.peer
  rw [← same.same] at related
  refine ⟨⟨?_, ?_, ?_⟩, by rw [related]⟩
  · rw [kept.flow, kept.flow]
    exact same.flow
  · rw [kept.peer, kept.peer]
    exact same.peer
  · rw [kept.flow, kept.peer, related]

namespace TrackerSim

theorem grow (sim : TrackerSim places spots bound small big) {more : List Nat} {n : Nat}
    (beyond : ∀ i ∈ more, bound ≤ i) (longer : bound ≤ n) :
    TrackerSim (places ++ more) spots n small big := by
  refine ⟨?_, fun h there => Nat.lt_of_lt_of_le (sim.flows h there) longer, sim.peers⟩
  refine sim.members.imp (fun a b same => ?_) ?_
  · have wider := same.append more []
    rwa [List.append_nil] at wider
  · intro h there
    rw [List.mem_append]
    constructor
    · exact Or.inl
    · rintro (old | new)
      · exact old
      · exact absurd (sim.flows h there) (Nat.not_lt.mpr (beyond _ new))

theorem half? (sim : TrackerSim places spots bound small big) (there : At spots j i) :
    ∃ h h', small.half? j = some h ∧ big.half? i = some h' ∧ HalfAt places spots h h' := by
  obtain ⟨h, h', inSmall, inBig, same, -⟩ := sim.members.known j i there
  exact ⟨h, h', inSmall, inBig, same⟩

theorem peer? (sim : TrackerSim places spots bound small big) (there : At spots j i) :
    Option.Rel (At spots) (small.peer? j) (big.peer? i) := by
  obtain ⟨h, h', inSmall, inBig, same⟩ := sim.half? there
  simp only [Tracker.peer?, inSmall, inBig, Option.bind_some]
  exact same.peer

theorem peer?_other (sim : TrackerSim places spots bound small big) (outside : i ∉ spots) {p : Nat}
    (found : big.peer? i = some p) : p ∉ spots := by
  obtain ⟨h, inBig, peer⟩ := Option.bind_eq_some_iff.mp found
  exact (sim.peers i h inBig outside p peer).2

theorem update (sim : TrackerSim places spots bound small big) {β : Type} {step : Half → Half × β}
    (kept : Half.Local step) (there : At spots j i) {h h' : Half} (inSmall : small.half? j = some h)
    (inBig : big.half? i = some h') :
    TrackerSim places spots bound (small.setHalf j (step h).1) (big.setHalf i (step h').1) ∧
      (step h').2 = (step h).2 := by
  obtain ⟨a, b, here, hereToo, same, claimed⟩ := sim.members.known j i there
  obtain rfl := Option.some.inj (inSmall.symm.trans here)
  obtain rfl := Option.some.inj (inBig.symm.trans hereToo)
  obtain ⟨after, answer⟩ := same.step kept
  refine ⟨⟨sim.members.set there after ?_, ?_, ?_⟩, answer⟩
  · rw [kept.flow]
    exact claimed
  · intro other member
    rcases List.mem_or_eq_of_mem_set member with old | new
    · exact sim.flows other old
    · rw [new, kept.flow]
      exact sim.flows h' (List.mem_of_getElem? inBig)
  · intro i' other found outside p peer
    have apart : i ≠ i' := by
      rintro rfl
      exact outside there.mem
    simp only [Tracker.setHalf, List.getElem?_set, apart, ↓reduceIte] at found
    have before := sim.peers i' other found outside p peer
    rwa [Tracker.setHalf, List.length_set]

theorem update_other (sim : TrackerSim places spots bound small big) {β : Type}
    {step : Half → Half × β} (kept : Half.Local step) (outside : i ∉ spots) {h : Half}
    (inBig : big.half? i = some h) :
    TrackerSim places spots bound small (big.setHalf i (step h).1) := by
  have foreign : h.flow.index ∉ places := fun claimed => outside (sim.members.only i h inBig claimed)
  refine ⟨sim.members.setOther outside ?_, ?_, ?_⟩
  · rw [kept.flow]
    exact foreign
  · intro other member
    rcases List.mem_or_eq_of_mem_set member with old | new
    · exact sim.flows other old
    · rw [new, kept.flow]
      exact sim.flows h (List.mem_of_getElem? inBig)
  · intro i' other found outsideToo p peer
    rw [Tracker.setHalf, List.length_set]
    simp only [Tracker.setHalf, List.getElem?_set] at found
    split at found
    · split at found
      · cases found
        rw [kept.peer] at peer
        exact sim.peers i h inBig outside p peer
      · cases found
    · exact sim.peers i' other found outsideToo p peer

theorem transmit (sim : TrackerSim places spots bound small big) (there : At spots j i)
    (tsn : UInt32) (cap : Nat) :
    TrackerSim places spots bound (small.transmit j tsn stamp cap).1
        (big.transmit i tsn stamp cap).1 ∧
      (big.transmit i tsn stamp cap).2 = (small.transmit j tsn stamp cap).2 := by
  obtain ⟨h, h', inSmall, inBig, -⟩ := sim.half? there
  obtain ⟨after, answer⟩ := sim.update (Half.local_transmit tsn stamp cap) there inSmall inBig
  simp only [Tracker.transmit, inSmall, inBig]
  exact ⟨after, congrArg some answer⟩

theorem transmit_other (sim : TrackerSim places spots bound small big) (outside : i ∉ spots)
    (tsn : UInt32) (cap : Nat) :
    TrackerSim places spots bound small (big.transmit i tsn stamp cap).1 := by
  unfold Tracker.transmit
  cases inBig : big.half? i with
  | none => exact sim
  | some h => exact sim.update_other (Half.local_transmit tsn stamp cap) outside inBig

theorem setBaseline (sim : TrackerSim places spots bound small big) (there : At spots j i)
    (tsn : UInt32) :
    TrackerSim places spots bound (small.setBaseline j tsn).1 (big.setBaseline i tsn).1 ∧
      (big.setBaseline i tsn).2 = (small.setBaseline j tsn).2 := by
  obtain ⟨h, h', inSmall, inBig, -⟩ := sim.half? there
  obtain ⟨after, answer⟩ := sim.update (Half.local_setBaseline tsn) there inSmall inBig
  simp only [Tracker.setBaseline, inSmall, inBig]
  exact ⟨after, congrArg some answer⟩

theorem setBaseline_other (sim : TrackerSim places spots bound small big) (outside : i ∉ spots)
    (tsn : UInt32) : TrackerSim places spots bound small (big.setBaseline i tsn).1 := by
  unfold Tracker.setBaseline
  cases inBig : big.half? i with
  | none => exact sim
  | some h => exact sim.update_other (Half.local_setBaseline tsn) outside inBig

theorem sack (sim : TrackerSim places spots bound small big) {acknowledged acknowledged' : Option Nat}
    (same : Option.Rel (At spots) acknowledged acknowledged') (limits : AckLimits)
    (chunk : Wire.SackChunk) (nonRenegable : Bool) (stamp : Stamp) :
    TrackerSim places spots bound (small.sack acknowledged limits chunk nonRenegable stamp).1
        (big.sack acknowledged' limits chunk nonRenegable stamp).1 ∧
      (big.sack acknowledged' limits chunk nonRenegable stamp).2 =
        (small.sack acknowledged limits chunk nonRenegable stamp).2 := by
  cases same with
  | none => exact ⟨sim, rfl⟩
  | some there =>
    obtain ⟨h, h', inSmall, inBig, -⟩ := sim.half? there
    simp only [Tracker.sack, inSmall, inBig, Option.bind_some, Option.map_some]
    exact sim.update (Half.local_sack limits chunk nonRenegable stamp) there inSmall inBig

theorem sack_other (sim : TrackerSim places spots bound small big) {acknowledged : Option Nat}
    (outside : ∀ i, acknowledged = some i → i ∉ spots) (limits : AckLimits)
    (chunk : Wire.SackChunk) (nonRenegable : Bool) (stamp : Stamp) :
    TrackerSim places spots bound small
      (big.sack acknowledged limits chunk nonRenegable stamp).1 := by
  cases acknowledged with
  | none => exact sim
  | some i =>
    simp only [Tracker.sack, Option.bind_some]
    cases inBig : big.half? i with
    | none => exact sim
    | some h =>
      exact sim.update_other (Half.local_sack limits chunk nonRenegable stamp) (outside i rfl) inBig

/- Finding the half of a flow, or adding it. -/

theorem opposite (same : FlowAt places f g) : FlowAt places f.opposite g.opposite := by
  refine ⟨same.1, ?_⟩
  simp only [Flow.opposite, same.2]

theorem flow_eq_iff (increasing : places.Pairwise (· < ·)) {f' g' : Flow}
    (same : FlowAt places f g) (other : FlowAt places f' g') : f' = f ↔ g' = g := by
  obtain ⟨here, direction⟩ := same
  obtain ⟨there, direction'⟩ := other
  have index : f'.index = f.index ↔ g'.index = g.index := by
    constructor
    · intro equal
      rw [equal] at there
      exact there.unique here
    · intro equal
      rw [equal] at there
      exact at_inj increasing there here
  cases f
  cases g
  cases f'
  cases g'
  simp_all

theorem find? (sim : TrackerSim places spots bound small big) (same : FlowAt places f g)
    (increasing : places.Pairwise (· < ·)) :
    Option.Rel (At spots) (small.find? f) (big.find? g) := by
  refine sim.members.findIdx? ?_ ?_
  · intro h h' related
    have flows := flow_eq_iff increasing same related.flow
    exact Bool.eq_iff_iff.mpr (by simpa using flows)
  · intro h found
    have flow : h.flow = g := by simpa using found
    rw [flow]
    exact same.1.mem

theorem find?_other (sim : TrackerSim places spots bound small big) (foreign : g.index ∉ places)
    (found : big.find? g = some i) : i < big.halves.length ∧ i ∉ spots := by
  obtain ⟨inside, hit, -⟩ := List.findIdx?_eq_some_iff_getElem.mp found
  refine ⟨inside, ?_⟩
  intro there
  obtain ⟨j, here⟩ := mem_places_iff.mp there
  obtain ⟨h, h', -, inBig, -, claimed⟩ := sim.members.known j i here
  obtain ⟨_, rfl⟩ := List.getElem?_eq_some_iff.mp inBig
  have flow : big.halves[i].flow = g := by simpa using hit
  rw [flow] at claimed
  exact foreign claimed

theorem spot_lt (sim : TrackerSim places spots bound small big) (there : i ∈ spots) :
    i < big.halves.length := sim.members.place_lt there

theorem half?_link (t : Tracker) (id : Nat) (peer : Option Nat) (i : Nat) :
    (t.link id peer).half? i =
      (t.half? i).map fun h => if peer = some i then { h with peer := some id } else h := by
  cases peer with
  | none => simp [Tracker.link]
  | some p =>
    simp only [Tracker.link, Tracker.half?, List.getElem?_modify, Option.some.injEq]
    rfl

theorem length_link (t : Tracker) (id : Nat) (peer : Option Nat) :
    (t.link id peer).halves.length = t.halves.length := by
  cases peer with
  | none => rfl
  | some p => exact List.length_modify _ _ _

theorem link {wider : List Nat} {mine : Half → Prop}
    (members : Embeds (HalfAt places wider) mine spots small.halves big.halves)
    (own : ∀ h peer, mine h → mine { h with peer := peer }) {n n' : Nat} (new : At wider n n')
    {peer peer' : Option Nat} (same : Option.Rel (At spots) peer peer') :
    Embeds (HalfAt places wider) mine spots (small.link n peer).halves
      (big.link n' peer').halves := by
  cases same with
  | none => exact members
  | some there =>
    refine members.modify there (fun a b related => ⟨related.flow, .some new, ?_⟩) fun b => own b _
    have names := related.same
    rw [names]
    rfl

theorem link_other {mine : Half → Prop}
    (members : Embeds (HalfAt places spots) mine spots small.halves big.halves)
    (own : ∀ h peer, mine { h with peer := peer } → mine h) (n : Nat) {peer : Option Nat}
    (outside : ∀ p, peer = some p → p ∉ spots) :
    Embeds (HalfAt places spots) mine spots small.halves (big.link n peer).halves := by
  cases peer with
  | none => exact members
  | some p => exact members.modifyOther (outside p rfl) fun b => own b _

theorem flows_link (sim : TrackerSim places spots bound small big) (n : Nat) (peer : Option Nat) :
    ∀ h ∈ (big.link n peer).halves, h.flow.index < bound := by
  intro h there
  obtain ⟨i, found⟩ := List.mem_iff_getElem?.mp there
  have linked := half?_link big n peer i
  rw [Tracker.half?, found] at linked
  obtain ⟨old, before, here⟩ := Option.map_eq_some_iff.mp linked.symm
  have kept : h.flow = old.flow := by
    rw [← here]
    split <;> rfl
  rw [kept]
  exact sim.flows old (List.mem_of_getElem? before)

theorem peer_added {t : Tracker} {peer : Option Nat} {new h : Half}
    (found : ((t.link t.halves.length peer).halves ++ [new])[i]? = some h) :
    i = t.halves.length ∧ h = new ∨
      ∃ old, t.half? i = some old ∧
        h.peer = if peer = some i then some t.halves.length else old.peer := by
  rw [List.getElem?_append, length_link] at found
  split at found
  · right
    have linked := half?_link t t.halves.length peer i
    rw [Tracker.half?, found] at linked
    obtain ⟨old, before, here⟩ := Option.map_eq_some_iff.mp linked.symm
    refine ⟨old, before, ?_⟩
    rw [← here]
    split <;> rfl
  · left
    obtain ⟨last, here⟩ := List.getElem?_eq_some_iff.mp found
    simp only [List.length_cons, List.length_nil] at last
    simp only [List.getElem_singleton] at here
    exact ⟨by omega, here.symm⟩

theorem add (sim : TrackerSim places spots bound small big) (same : FlowAt places f g)
    (known : g.index < bound) {peer peer' : Option Nat}
    (other : Option.Rel (At spots) peer peer') :
    TrackerSim places (spots ++ [big.halves.length]) bound
      ⟨(small.link small.halves.length peer).halves ++ [{ Half.new f with peer := peer }]⟩
      ⟨(big.link big.halves.length peer').halves ++ [{ Half.new g with peer := peer' }]⟩ := by
  have last : At (spots ++ [big.halves.length]) small.halves.length big.halves.length := by
    rw [← sim.members.length]
    exact at_append_last spots _
  have wider : Embeds (HalfAt places (spots ++ [big.halves.length]))
      (fun h => h.flow.index ∈ places) spots small.halves big.halves := by
    refine sim.members.imp (fun a b related => ?_) fun _ _ => Iff.rfl
    have more := related.append [] [big.halves.length]
    rwa [List.append_nil] at more
  have new : HalfAt places (spots ++ [big.halves.length]) { Half.new f with peer := peer }
      { Half.new g with peer := peer' } := by
    refine ⟨same, ?_, rfl⟩
    cases other with
    | none => exact .none
    | some there => exact .some (there.append _)
  have members := (link wider (fun _ _ => id) last other).push new same.1.mem
  rw [length_link] at members
  refine ⟨members, ?_, ?_⟩
  · intro h there
    rcases List.mem_append.mp there with old | added
    · exact sim.flows_link _ _ h old
    · rw [List.mem_singleton.mp added]
      exact known
  · intro i h found outside p peer
    rw [List.mem_append, List.mem_singleton, not_or] at outside
    rcases peer_added found with ⟨here, -⟩ | ⟨old, before, kept⟩
    · exact absurd here outside.2
    · have unlinked : peer' ≠ some i := by
        rintro rfl
        cases other with
        | some there => exact outside.1 there.mem
      rw [if_neg unlinked] at kept
      obtain ⟨inside, apart⟩ := sim.peers i old before outside.1 p (kept ▸ peer)
      rw [List.length_append, length_link, List.mem_append, List.mem_singleton, not_or]
      exact ⟨Nat.lt_succ_of_lt inside, apart, Nat.ne_of_lt inside⟩

theorem add_other (sim : TrackerSim places spots bound small big)
    (foreign : Foreign places bound g) {peer : Option Nat}
    (other : ∀ p, peer = some p → p < big.halves.length ∧ p ∉ spots) :
    TrackerSim places spots bound small
      ⟨(big.link big.halves.length peer).halves ++ [{ Half.new g with peer := peer }]⟩ := by
  have linked := link_other sim.members (fun _ _ => id) big.halves.length
    fun p there => (other p there).2
  refine ⟨linked.pushOther foreign.2, ?_, ?_⟩
  · intro h there
    rcases List.mem_append.mp there with old | added
    · exact sim.flows_link _ _ h old
    · rw [List.mem_singleton.mp added]
      exact foreign.1
  · intro i h found outside p there
    rw [List.length_append, length_link]
    rcases peer_added found with ⟨-, rfl⟩ | ⟨old, before, kept⟩
    · obtain ⟨inside, apart⟩ := other p there
      exact ⟨Nat.lt_succ_of_lt inside, apart⟩
    · rw [there] at kept
      split at kept
      · cases kept
        exact ⟨Nat.lt_succ_self _, fun last => Nat.lt_irrefl _ (sim.spot_lt last)⟩
      · obtain ⟨inside, apart⟩ := sim.peers i old before outside p kept.symm
        exact ⟨Nat.lt_succ_of_lt inside, apart⟩

theorem ensure (sim : TrackerSim places spots bound small big) (same : FlowAt places f g)
    (increasing : places.Pairwise (· < ·)) (known : g.index < bound) :
    ∃ further, TrackerSim places (spots ++ further) bound (small.ensure f).1 (big.ensure g).1 ∧
      At (spots ++ further) (small.ensure f).2 (big.ensure g).2 := by
  have own := sim.find? same increasing
  have other := sim.find? (opposite same) increasing
  unfold Tracker.ensure
  generalize small.find? f = x, big.find? g = y at own
  cases own with
  | some there =>
    refine ⟨[], ?_, ?_⟩
    · rw [List.append_nil]
      exact sim
    · rw [List.append_nil]
      exact there
  | none =>
    refine ⟨[big.halves.length], sim.add same known other, ?_⟩
    change At _ small.halves.length big.halves.length
    rw [← sim.members.length]
    exact at_append_last spots _

theorem ensure_other (sim : TrackerSim places spots bound small big)
    (foreign : Foreign places bound g) :
    TrackerSim places spots bound small (big.ensure g).1 ∧ (big.ensure g).2 ∉ spots := by
  unfold Tracker.ensure
  cases found : big.find? g with
  | some id => exact ⟨sim, (sim.find?_other foreign.2 found).2⟩
  | none =>
    have opposite : ∀ p, big.find? g.opposite = some p → p < big.halves.length ∧ p ∉ spots :=
      fun p there => sim.find?_other (g := g.opposite) foreign.2 there
    exact ⟨sim.add_other foreign opposite, fun last => Nat.lt_irrefl _ (sim.spot_lt last)⟩

end TrackerSim

end Isolation

end SctpTrace
