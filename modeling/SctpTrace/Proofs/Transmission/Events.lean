import SctpTrace.Proofs.Transmission.Counts
import SctpTrace.Proofs.Transmission.CumulativePoint
import SctpTrace.Proofs.Transmission.Peers

/-!
What reaches the halves. A chunk is an event of one flow: data and INIT of the packet's own flow, a
SACK of the opposite one (`HalfEvent.reaches`). Events of the first kind leave the acknowledgements
and the cumulative point as they are (`Half.sends_follow`), those of the second kind everything else
(`Half.hears_follow`).
-/
namespace SctpTrace.Transmission

namespace HalfEvent

def ofChunk? (stamp : Stamp) : Wire.Chunk → Option HalfEvent
  | .data c => some (.transmit c.tsn stamp)
  | .interleaved c => some (.transmit c.tsn stamp)
  | .sack c => some (.sack c false stamp)
  | .nrSack c => some (.sack c true stamp)
  | .init c => some (.announce c.initialTsn)
  | .initAck c => some (.announce c.initialTsn)
  | _ => none

def isAck : HalfEvent → Bool
  | sack _ _ _ => true
  | _ => false

def target (e : HalfEvent) (f : Flow) : Flow := if e.isAck then f.opposite else f

def reaches (e : HalfEvent) (flow : Option Flow) (g : Flow) : Bool := flow.map e.target == some g

end HalfEvent

section

variable {e : HalfEvent} {f g : Flow} {stamp : Stamp} {c : Wire.Chunk}

namespace HalfEvent

theorem reaches_own : e.reaches (some f) f = !e.isAck := by
  cases ack : e.isAck <;> simp [reaches, target, ack, Flow.opposite_ne]

theorem reaches_opposite : e.reaches (some f) f.opposite = e.isAck := by
  cases ack : e.isAck <;> simp [reaches, target, ack, (Flow.opposite_ne f).symm]

theorem reaches_other (own : g ≠ f) (opposite : g ≠ f.opposite) : e.reaches (some f) g = false := by
  cases ack : e.isAck <;> simp [reaches, target, ack, own.symm, opposite.symm]

theorem eq_sack_of_isAck (is : ofChunk? stamp c = some e) (ack : e.isAck = true) :
    ∃ chunk nonRenegable, e = .sack chunk nonRenegable stamp := by
  cases c <;> cases is <;> first | exact ⟨_, _, rfl⟩ | cases ack

end HalfEvent

end

namespace Half

/-- Baseline and records may change, but neither an acknowledgement nor the cumulative point. -/
structure Sends (h after : Half) : Prop where
  flow : after.flow = h.flow
  peer : after.peer = h.peer
  cumulative : after.cumulative = h.cumulative
  acks : ∀ relative, after.ack? relative = h.ack? relative

/-- Records that are there may be acknowledged in this frame, and the cumulative point may change,
but not the baseline. -/
structure Hears (stamp : Stamp) (h after : Half) : Prop where
  flow : after.flow = h.flow
  peer : after.peer = h.peer
  baseline : after.baseline = h.baseline
  records : List.Forall₂ (AckStep stamp) h.records after.records

variable {h h' h'' : Half} {limits : AckLimits} {cap : Nat} {e : HalfEvent}
  {events : List HalfEvent} {stamp : Stamp} {f : Flow}

def unlinked (h : Half) : Half := { h with peer := none }

theorem local_step (limits : AckLimits) (cap : Nat) (e : HalfEvent) :
    Local fun h => (h.step limits cap e, ()) := by
  intro h flow peer
  cases e with
  | announce tsn => exact congrArg (fun x => (x.1, ())) (local_setBaseline tsn h flow peer)
  | transmit tsn stamp =>
    exact congrArg (fun x => (x.1, ())) (local_transmit tsn stamp cap h flow peer)
  | sack chunk nonRenegable stamp =>
    exact congrArg (fun x => (x.1, ())) (local_sack limits chunk nonRenegable stamp h flow peer)

@[simp] theorem flow_step : (h.step limits cap e).flow = h.flow := (local_step limits cap e).flow h

@[simp] theorem peer_step : (h.step limits cap e).peer = h.peer := (local_step limits cap e).peer h

theorem unlinked_step : (h.step limits cap e).unlinked = h.unlinked.step limits cap e := by
  have moved := congrArg Prod.fst (local_step limits cap e h h.flow none)
  have own : ((h.step limits cap e).relabel h.flow none) = (h.step limits cap e).unlinked :=
    congrArg (fun flow => (h.step limits cap e).relabel flow none) flow_step.symm
  exact own.symm.trans moved.symm

theorem follow_append (h : Half) (first later : List HalfEvent) :
    h.follow limits cap (first ++ later) = (h.follow limits cap first).follow limits cap later :=
  List.foldl_append

@[simp] theorem flow_follow : (h.follow limits cap events).flow = h.flow := by
  induction events generalizing h with
  | nil => rfl
  | cons e rest ih => exact ih.trans flow_step

theorem unlinked_follow :
    (h.follow limits cap events).unlinked = h.unlinked.follow limits cap events := by
  induction events generalizing h with
  | nil => rfl
  | cons e rest ih =>
    change ((h.step limits cap e).follow limits cap rest).unlinked =
      (h.unlinked.step limits cap e).follow limits cap rest
    rw [ih, unlinked_step]

/-- A SACK for a flow that was not seen yet says nothing. -/
theorem gapAcks_new (cumulative : UInt32) (kind : AckKind) (blocks : List Wire.GapBlock) :
    gapAcks limits cumulative stamp kind (new f) blocks = (new f, []) := by
  induction blocks with
  | nil => rfl
  | cons block rest ih =>
    have none : (new f).gapAck limits cumulative block stamp kind = (new f, []) := by
      unfold gapAck
      split <;> rfl
    simp only [gapAcks, none, ih, List.nil_append]

theorem step_new_of_isAck (ack : e.isAck = true) : (new f).step limits cap e = new f := by
  cases e with
  | announce tsn => cases ack
  | transmit tsn stamp => cases ack
  | sack chunk nonRenegable stamp =>
    have point : (new f).cumulativeAck limits chunk.cumulative stamp = (new f, []) := rfl
    simp only [step, sack, applySack, point, gapAcks_new]

theorem Sends.refl (h : Half) : h.Sends h := ⟨rfl, rfl, rfl, fun _ => rfl⟩

theorem Sends.trans (first : h.Sends h') (second : h'.Sends h'') : h.Sends h'' :=
  ⟨second.flow.trans first.flow, second.peer.trans first.peer,
    second.cumulative.trans first.cumulative,
    fun relative => (second.acks relative).trans (first.acks relative)⟩

theorem sends_step (own : e.isAck = false) : h.Sends (h.step limits cap e) := by
  cases e with
  | announce tsn =>
    simp only [step, setBaseline]
    split
    · exact .refl h
    · exact ⟨rfl, rfl, rfl, fun _ => rfl⟩
  | transmit tsn stamp =>
    exact ⟨flow_step, peer_step, (transmit_fields h tsn stamp cap).2, fun _ => ack?_transmit⟩
  | sack chunk nonRenegable stamp => cases own

theorem sends_follow (own : ∀ e ∈ events, e.isAck = false) :
    h.Sends (h.follow limits cap events) := by
  induction events generalizing h with
  | nil => exact .refl h
  | cons e rest ih =>
    exact (sends_step (own e List.mem_cons_self)).trans
      (ih fun e there => own e (List.mem_cons_of_mem _ there))

theorem forall₂_ackStep_trans {entries later latest : Keyed Nat Record}
    (first : List.Forall₂ (AckStep stamp) entries later)
    (second : List.Forall₂ (AckStep stamp) later latest) :
    List.Forall₂ (AckStep stamp) entries latest := by
  induction first generalizing latest with
  | nil => exact second
  | cons step _ ih =>
    cases second with
    | cons next rest => exact .cons (step.trans next) (ih rest)

theorem Hears.refl (h : Half) : h.Hears stamp h :=
  ⟨rfl, rfl, rfl, List.forall₂_same.mpr fun _ _ => Or.inl rfl⟩

theorem Hears.trans (first : h.Hears stamp h') (second : h'.Hears stamp h'') : h.Hears stamp h'' :=
  ⟨second.flow.trans first.flow, second.peer.trans first.peer,
    second.baseline.trans first.baseline, forall₂_ackStep_trans first.records second.records⟩

theorem hears_sack (h : Half) (chunk : Wire.SackChunk) (nonRenegable : Bool) :
    h.Hears stamp (h.step limits cap (.sack chunk nonRenegable stamp)) :=
  have acknowledges := acknowledges_sack h limits stamp chunk nonRenegable
  ⟨flow_step, peer_step, acknowledges.others.2.1, acknowledges.records⟩

theorem hears_follow
    (acks : ∀ e ∈ events, ∃ chunk nonRenegable, e = .sack chunk nonRenegable stamp) :
    h.Hears stamp (h.follow limits cap events) := by
  induction events generalizing h with
  | nil => exact .refl h
  | cons e rest ih =>
    obtain ⟨chunk, nonRenegable, rfl⟩ := acks e List.mem_cons_self
    exact (hears_sack h chunk nonRenegable).trans
      (ih fun e there => acks e (List.mem_cons_of_mem _ there))

end Half

namespace Tracker

variable {t : Tracker} {id : Nat} {h : Half} {limits : AckLimits} {cap : Nat} {f : Flow}

theorem Sound.setHalf_eq_map (sound : t.Sound) (found : t.half? id = some h) (φ : Half → Half) :
    (t.setHalf id (φ h)).halves = t.halves.map fun g => if g.flow = h.flow then φ g else g := by
  apply List.ext_getElem?
  intro j
  change (t.setHalf id (φ h)).half? j = _
  rw [half?_setHalf found, List.getElem?_map]
  change _ = (t.half? j).map _
  split
  · rename_i same
    rw [← same, found, Option.map_some, if_pos rfl]
  · rename_i other
    cases there : t.half? j with
    | none => rfl
    | some g =>
      have apart : g.flow ≠ h.flow := fun same => other (sound.place_eq found there same.symm)
      rw [Option.map_some, if_neg apart]

/-- But for its peer, a half changes only with what reaches it; a half that is added is new. -/
theorem unlinked_ensure : (t.ensure f).1.halves.map Half.unlinked =
    t.halves.map Half.unlinked ++ if f ∈ t.flows then [] else [Half.new f] := by
  rcases halves_ensure (t := t) (f := f) with ⟨same, h, here, own⟩ | ⟨new, -, added⟩
  · rw [same, if_pos (mem_flows_iff.mpr ⟨_, h, here, own⟩), List.append_nil]
  · have absent : f ∉ t.flows := new
    rw [added, List.map_append, map_link _ (fun _ _ => rfl), if_neg absent]
    rfl

theorem Sound.half?_ensure_of_some {i : Nat} (sound : t.Sound) (there : t.half? i = some h) :
    (t.ensure f).1.half? i = some { h with
      peer := if f ∉ t.flows ∧ h.flow = f.opposite then some t.halves.length else h.peer } := by
  rcases halves_ensure (t := t) (f := f) with ⟨same, seen⟩ | ⟨new, -, added⟩
  · obtain ⟨own, place, isFlow⟩ := seen
    have known : f ∈ t.flows := mem_flows_iff.mpr ⟨_, own, place, isFlow⟩
    rw [half?, same, if_neg fun both => both.1 known]
    exact there
  · refine (half?_added added there).trans (congrArg some ?_)
    have absent : f ∉ t.flows := new
    by_cases opposite : h.flow = f.opposite
    · have found : t.find? f.opposite = some i := opposite ▸ sound.find?_eq_some there
      rw [if_pos found, if_pos ⟨absent, opposite⟩]
    · have missed : t.find? f.opposite ≠ some i := by
        intro found
        obtain ⟨other, place, own⟩ := half?_of_find? found
        rw [there] at place
        cases place
        exact opposite own
      rw [if_neg missed, if_neg fun both => opposite both.2]

end Tracker

end SctpTrace.Transmission
