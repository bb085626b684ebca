import SctpTrace.Proofs.Isolation.Halves
import SctpTrace.Proofs.Keyed
import SctpTrace.Proofs.Lookup
import SctpTrace.Proofs.Transmission.Acknowledged
import SctpTrace.Proofs.Transmission.FirstFrame

/-!
The tracker read by flow. Each flow has one half, the peer of a half is that of the opposite flow,
and a step on one half changes what is read of its own flow only (`Sound.ofFlow?_setHalf`).
-/
namespace SctpTrace.Transmission

theorem sum_map_set {α : Type} (φ : α → Nat) {l : List α} {i : Nat} {a b : α}
    (found : l[i]? = some a) : ((l.set i b).map φ).sum + φ a = (l.map φ).sum + φ b := by
  induction l generalizing i with
  | nil => cases found
  | cons first rest ih =>
    cases i with
    | zero =>
      simp only [List.getElem?_cons_zero, Option.some.injEq] at found
      subst found
      simp only [List.set_cons_zero, List.map_cons, List.sum_cons]
      omega
    | succ n =>
      have later := ih found
      simp only [List.set_cons_succ, List.map_cons, List.sum_cons]
      omega

structure Half.Keeps (h after : Half) : Prop where
  flow : after.flow = h.flow
  peer : after.peer = h.peer
  ascending : h.records.Ascending → after.records.Ascending
  founded : h.Founded → after.Founded
  first : h.Founded → ∀ t frame, h.firstFrame? t = some frame → after.firstFrame? t = some frame

namespace Half

variable {h after : Half} {tsn : UInt32} {stamp : Stamp} {cap : Nat} {limits : AckLimits}
  {facts : List Acked}

theorem keeps_transmit : h.Keeps (h.transmit tsn stamp cap).1 := by
  refine ⟨(local_transmit tsn stamp cap).flow h, (local_transmit tsn stamp cap).peer h, ?_,
    fun _ => founded_transmit, ?_⟩
  · intro ascending
    simp only [transmit, recordAt]
    split
    · exact Keyed.ascending_insertOrdered _ _ ascending
    · split
      · exact ascending
      · exact Keyed.ascending_insertOrdered _ _ ascending
  · intro founded t frame known
    rw [firstFrame?_transmit founded]
    split
    · rename_i same
      rw [← same, known]
      rfl
    · exact known

theorem keeps_setBaseline : h.Keeps (h.setBaseline tsn).1 := by
  refine ⟨(local_setBaseline tsn).flow h, (local_setBaseline tsn).peer h, ?_, ?_, ?_⟩
  · intro ascending
    unfold setBaseline
    split <;> exact ascending
  · intro founded
    unfold setBaseline
    split
    · exact founded
    · intro absent
      cases absent
  · intro founded t frame known
    unfold setBaseline
    split
    · exact known
    · rename_i absent
      simp [firstFrame?, record?, founded absent] at known

theorem keys_ackStep {entries entries' : Keyed Nat Record}
    (steps : List.Forall₂ (AckStep stamp) entries entries') : entries'.keys = entries.keys := by
  induction steps with
  | nil => rfl
  | cons step _ ih =>
    rw [Keyed.keys, List.map_cons, step.relative]
    exact congrArg _ ih

theorem get?_ackStep {entries entries' : Keyed Nat Record}
    (steps : List.Forall₂ (AckStep stamp) entries entries') (relative : Nat) :
    (Keyed.get? relative entries').map (·.first) = (Keyed.get? relative entries).map (·.first) := by
  induction steps with
  | nil => rfl
  | cons step _ ih =>
    rw [Keyed.get?, Keyed.get?, step.relative]
    split
    · exact congrArg some step.first
    · exact ih

theorem keeps_sack (chunk : Wire.SackChunk) (nonRenegable : Bool) :
    h.Keeps (h.sack limits chunk nonRenegable stamp).1 := by
  have whole := acknowledges_sack h limits stamp chunk nonRenegable
  refine ⟨whole.others.1, whole.others.2.2.2, ?_, ?_, ?_⟩
  · intro ascending
    rw [Keyed.Ascending, keys_ackStep whole.records]
    exact ascending
  · intro founded absent
    rw [whole.others.2.1] at absent
    have nothing := whole.records
    rw [founded absent] at nothing
    exact List.forall₂_nil_left_iff.mp nothing
  · intro _ t frame known
    have place : (h.sack limits chunk nonRenegable stamp).1.relative? t = h.relative? t := by
      rw [relative?, whole.others.2.1, relative?]
    rw [firstFrame?, record?, place]
    rw [firstFrame?, record?] at known
    cases there : h.relative? t with
    | none =>
      rw [there] at known
      cases known
    | some relative =>
      have same := congrArg (Option.map (·.frame)) (get?_ackStep whole.records relative)
      rw [Option.map_map, Option.map_map] at same
      rw [there] at known
      exact same.trans known

end Half

namespace Tracker

def ofFlow? (t : Tracker) (f : Flow) : Option Half := t.halves.find? fun h => h.flow == f

structure Sound (t : Tracker) : Prop where
  distinct : (t.halves.map (·.flow)).Nodup
  peers : ∀ (i p : Nat) (h : Half), t.half? i = some h → h.peer = some p →
    ∃ other, t.half? p = some other ∧ other.flow = h.flow.opposite
  ascending : ∀ h ∈ t.halves, h.records.Ascending
  founded : ∀ h ∈ t.halves, h.Founded

variable {t : Tracker} {f g : Flow} {i id : Nat} {h after : Half} {β : Type}

theorem sound_empty : empty.Sound := by
  refine ⟨List.nodup_nil, ?_, ?_, ?_⟩
  · intro i p h absent
    cases absent
  · intro h absent
    cases absent
  · intro h absent
    cases absent

theorem Sound.ofFlow?_eq_some_iff (sound : t.Sound) :
    t.ofFlow? f = some h ↔ h ∈ t.halves ∧ h.flow = f :=
  find?_key_eq_some_iff sound.distinct

theorem Sound.ofFlow?_own (sound : t.Sound) (found : t.half? id = some h) :
    t.ofFlow? h.flow = some h :=
  sound.ofFlow?_eq_some_iff.mpr ⟨List.mem_of_getElem? found, rfl⟩

/- One half goes on to another state. -/

theorem flows_setHalf (found : t.half? id = some h) (flow : after.flow = h.flow) :
    (t.setHalf id after).halves.map (·.flow) = t.halves.map (·.flow) := by
  obtain ⟨bound, here⟩ := List.getElem?_eq_some_iff.mp found
  rw [setHalf, List.map_set, flow, ← here]
  apply List.ext_getElem?
  intro j
  simp only [List.getElem?_set, List.length_map, List.getElem?_map]
  split
  · rename_i same
    subst same
    simp [bound]
  · rfl

theorem half?_setHalf (found : t.half? id = some h) (j : Nat) :
    (t.setHalf id after).half? j = if id = j then some after else t.half? j := by
  have bound := (List.getElem?_eq_some_iff.mp found).1
  simp only [half?, setHalf, List.getElem?_set]
  by_cases same : id = j
  · subst same
    rw [if_pos rfl, if_pos rfl, if_pos bound]
  · rw [if_neg same, if_neg same]

theorem Sound.setHalf (sound : t.Sound) (found : t.half? id = some h) (keeps : h.Keeps after) :
    (t.setHalf id after).Sound := by
  have member : h ∈ t.halves := List.mem_of_getElem? found
  refine ⟨?_, ?_, ?_, ?_⟩
  · rw [flows_setHalf found keeps.flow]
    exact sound.distinct
  · -- The other half may be the one that changed; its flow is the same.
    have flowAt : ∀ p other, t.half? p = some other →
        ∃ now, (t.setHalf id after).half? p = some now ∧ now.flow = other.flow := by
      intro p other there
      rw [half?_setHalf found]
      split
      · rename_i same
        subst same
        rw [found] at there
        cases there
        exact ⟨after, rfl, keeps.flow⟩
      · exact ⟨other, there, rfl⟩
    intro j p now here linked
    rw [half?_setHalf found] at here
    have before : ∃ old, t.half? j = some old ∧ old.flow = now.flow ∧ old.peer = now.peer := by
      split at here
      · rename_i same
        cases here
        exact ⟨h, same ▸ found, keeps.flow.symm, keeps.peer.symm⟩
      · exact ⟨now, here, rfl, rfl⟩
    obtain ⟨old, place, flow, peer⟩ := before
    obtain ⟨other, there, opposite⟩ := sound.peers j p old place (peer.trans linked)
    obtain ⟨otherNow, thereNow, same⟩ := flowAt p other there
    exact ⟨otherNow, thereNow, by rw [same, opposite, flow]⟩
  · intro other there
    rcases List.mem_or_eq_of_mem_set there with old | rfl
    · exact sound.ascending other old
    · exact keeps.ascending (sound.ascending h member)
  · intro other there
    rcases List.mem_or_eq_of_mem_set there with old | rfl
    · exact sound.founded other old
    · exact keeps.founded (sound.founded h member)

theorem Sound.ofFlow?_setHalf (sound : t.Sound) (found : t.half? id = some h)
    (flow : after.flow = h.flow) :
    (t.setHalf id after).ofFlow? g = if g = h.flow then some after else t.ofFlow? g := by
  have distinct : ((t.setHalf id after).halves.map (·.flow)).Nodup := by
    rw [flows_setHalf found flow]
    exact sound.distinct
  apply Option.ext
  intro other
  rw [ofFlow?, find?_key_eq_some_iff distinct, List.mem_iff_getElem?]
  change (∃ j, (t.setHalf id after).half? j = some other) ∧ _ ↔ _
  simp only [half?_setHalf found]
  constructor
  · rintro ⟨⟨j, there⟩, rfl⟩
    split at there
    · cases there
      rw [if_pos flow]
    · rename_i apart
      have elsewhere : other.flow ≠ h.flow := by
        intro same
        -- Two places with one flow would repeat it in the list of flows.
        have places := List.nodup_iff_getElem?_ne_getElem?.mp sound.distinct
        have one : (t.halves.map (·.flow))[j]? = (t.halves.map (·.flow))[id]? := by
          rw [List.getElem?_map, List.getElem?_map]
          change (t.half? j).map _ = (t.half? id).map _
          rw [there, found, Option.map_some, Option.map_some, same]
        have bound := (List.getElem?_eq_some_iff.mp found).1
        have bound' := (List.getElem?_eq_some_iff.mp there).1
        rcases Nat.lt_or_gt_of_ne apart with less | more
        · exact places id j less (by simpa using bound') one.symm
        · exact places j id more (by simpa using bound) one
      rw [if_neg elsewhere]
      exact sound.ofFlow?_eq_some_iff.mpr ⟨List.mem_of_getElem? there, rfl⟩
  · intro here
    split at here
    · rename_i same
      cases here
      exact ⟨⟨id, if_pos rfl⟩, flow.trans same.symm⟩
    · rename_i other'
      obtain ⟨there, rfl⟩ := sound.ofFlow?_eq_some_iff.mp here
      obtain ⟨j, place⟩ := List.mem_iff_getElem?.mp there
      refine ⟨⟨j, ?_⟩, rfl⟩
      rw [if_neg]
      · exact place
      · rintro rfl
        rw [half?, place] at found
        cases found
        exact other' rfl

def firstFrame? (t : Tracker) (f : Flow) (tsn : UInt32) : Option FrameNumber :=
  (t.ofFlow? f).bind fun h => h.firstFrame? tsn

theorem Sound.firstFrame?_eq (sound : t.Sound) (found : t.half? id = some h) (tsn : UInt32) :
    t.firstFrame? h.flow tsn = h.firstFrame? tsn := by
  rw [firstFrame?, sound.ofFlow?_own found, Option.bind_some]

theorem Sound.firstFrame?_setHalf (sound : t.Sound) (found : t.half? id = some h)
    (keeps : h.Keeps after) {tsn : UInt32} {frame : FrameNumber}
    (known : t.firstFrame? f tsn = some frame) :
    (t.setHalf id after).firstFrame? f tsn = some frame := by
  rw [firstFrame?, sound.ofFlow?_setHalf found keeps.flow]
  split
  · rename_i own
    rw [own, sound.firstFrame?_eq found] at known
    exact keeps.first (sound.founded h (List.mem_of_getElem? found)) tsn frame known
  · exact known

/- A half is added, and linked to its peer. -/

theorem map_link (φ : Half → β) (blind : ∀ h peer, φ { h with peer := peer } = φ h) (n : Nat)
    (peer : Option Nat) : (t.link n peer).halves.map φ = t.halves.map φ := by
  apply List.ext_getElem?
  intro i
  have linked := Isolation.TrackerSim.half?_link t n peer i
  rw [half?] at linked
  rw [List.getElem?_map, List.getElem?_map, linked, Option.map_map, half?]
  refine congrArg (fun ψ => Option.map ψ t.halves[i]?) ?_
  funext h
  simp only [Function.comp_apply]
  split
  · exact blind h _
  · rfl

theorem bind_ofFlow?_eq (φ : Half → Option β) :
    (t.ofFlow? g).bind φ =
      ((t.halves.map fun h => (h.flow, φ h)).find? fun e => e.1 == g).bind (·.2) := by
  rw [List.find?_map, Option.bind_map]
  rfl

theorem half?_of_find? {place : Nat} (found : t.find? g = some place) :
    ∃ h, t.half? place = some h ∧ h.flow = g := by
  obtain ⟨inside, hit, -⟩ := List.findIdx?_eq_some_iff_getElem.mp found
  exact ⟨t.halves[place], by simp [half?, inside], by simpa using hit⟩

theorem halves_ensure : (t.ensure f).1.halves = t.halves ∧ (∃ h, t.half? (t.ensure f).2 = some h ∧
      h.flow = f) ∨
    f ∉ t.halves.map (·.flow) ∧ (t.ensure f).2 = t.halves.length ∧
      (t.ensure f).1.halves = (t.link t.halves.length (t.find? f.opposite)).halves ++
        [{ Half.new f with peer := t.find? f.opposite }] := by
  unfold ensure
  cases found : t.find? f with
  | some place =>
    exact Or.inl ⟨rfl, half?_of_find? found⟩
  | none =>
    refine Or.inr ⟨?_, rfl, rfl⟩
    intro there
    obtain ⟨h, member, rfl⟩ := List.mem_map.mp there
    have absent := List.findIdx?_eq_none_iff.mp found h member
    simp at absent

theorem bind_ofFlow?_ensure {φ : Half → Option β}
    (blind : ∀ h peer, φ { h with peer := peer } = φ h) (blank : ∀ f, φ (.new f) = none) :
    ((t.ensure f).1.ofFlow? g).bind φ = (t.ofFlow? g).bind φ := by
  rcases halves_ensure (t := t) (f := f) with ⟨same, -⟩ | ⟨-, -, added⟩
  · rw [ofFlow?, same]
    rfl
  · rw [bind_ofFlow?_eq, bind_ofFlow?_eq, added, List.map_append,
      map_link (fun h => (h.flow, φ h)) (by simp [blind]), List.find?_append]
    cases (t.halves.map fun h => (h.flow, φ h)).find? fun e => e.1 == g with
    | some e => rfl
    | none =>
      have nothing : φ { Half.new f with peer := t.find? f.opposite } = none :=
        (blind _ _).trans (blank f)
      simp only [List.map_cons, List.map_nil, nothing, List.find?_singleton, Option.none_or]
      split <;> rfl

theorem firstFrame?_ensure (tsn : UInt32) :
    (t.ensure f).1.firstFrame? g tsn = t.firstFrame? g tsn :=
  bind_ofFlow?_ensure (fun _ _ => rfl) fun _ => rfl

theorem sum_ensure {φ : Half → Nat} (blind : ∀ h peer, φ { h with peer := peer } = φ h)
    (blank : ∀ f, φ (.new f) = 0) :
    ((t.ensure f).1.halves.map φ).sum = (t.halves.map φ).sum := by
  rcases halves_ensure (t := t) (f := f) with ⟨same, -⟩ | ⟨-, -, added⟩
  · rw [same]
  · have nothing : φ { Half.new f with peer := t.find? f.opposite } = 0 :=
      (blind _ _).trans (blank f)
    rw [added, List.map_append, map_link φ blind, List.sum_append, List.map_singleton, nothing,
      List.sum_singleton, Nat.add_zero]

theorem sum_setHalf (φ : Half → Nat) (after : Half) (found : t.half? id = some h) :
    ((t.setHalf id after).halves.map φ).sum + φ h = (t.halves.map φ).sum + φ after :=
  sum_map_set φ found

section Added

variable (added : (t.ensure f).1.halves =
  (t.link t.halves.length (t.find? f.opposite)).halves ++
    [{ Half.new f with peer := t.find? f.opposite }])

include added

theorem mem_added : ∀ h ∈ (t.ensure f).1.halves,
    (∃ old ∈ t.halves, h.records = old.records ∧ h.baseline = old.baseline) ∨ h.records = [] := by
  intro h there
  rw [added, List.mem_append, List.mem_singleton] at there
  rcases there with linked | rfl
  · left
    have viewed := List.mem_map_of_mem (f := fun h => (h.records, h.baseline)) linked
    rw [map_link _ (by simp), List.mem_map] at viewed
    obtain ⟨old, member, same⟩ := viewed
    simp only [Prod.mk.injEq] at same
    exact ⟨old, member, same.1.symm, same.2.symm⟩
  · exact Or.inr rfl

theorem half?_added {place : Nat} {old : Half} (there : t.half? place = some old) :
    (t.ensure f).1.half? place = some (if t.find? f.opposite = some place then
      { old with peer := some t.halves.length } else old) := by
  have bound := (List.getElem?_eq_some_iff.mp there).1
  have linked := Isolation.TrackerSim.half?_link t t.halves.length (t.find? f.opposite) place
  rw [there, Option.map_some] at linked
  rw [half?, added, List.getElem?_append_left]
  · exact linked
  · rw [Isolation.TrackerSim.length_link]
    exact bound

theorem half?_added_of_some {place : Nat} {old : Half} (there : t.half? place = some old) :
    ∃ now, (t.ensure f).1.half? place = some now ∧ now.flow = old.flow := by
  refine ⟨_, half?_added added there, ?_⟩
  split <;> rfl

theorem half?_added_last :
    (t.ensure f).1.half? t.halves.length = some { Half.new f with peer := t.find? f.opposite } := by
  rw [half?, added, List.getElem?_append_right, Isolation.TrackerSim.length_link, Nat.sub_self]
  · rfl
  · rw [Isolation.TrackerSim.length_link]

/-- The peer of a half is still that of the opposite flow: it was before, or it is the new half. -/
theorem peers_added (sound : t.Sound) (place peer : Nat) (h : Half)
    (here : (t.ensure f).1.half? place = some h) (linked : h.peer = some peer) :
    ∃ other, (t.ensure f).1.half? peer = some other ∧ other.flow = h.flow.opposite := by
  have whole := here
  rw [half?, added] at here
  rcases Isolation.TrackerSim.peer_added here with ⟨-, rfl⟩ | ⟨old, before, link⟩
  · obtain ⟨other, there, flow⟩ := half?_of_find? linked
    obtain ⟨now, thereNow, same⟩ := half?_added_of_some added there
    exact ⟨now, thereNow, same.trans flow⟩
  · obtain ⟨now, hereNow, flow⟩ := half?_added_of_some added before
    rw [whole] at hereNow
    cases hereNow
    rw [linked] at link
    split at link
    · rename_i toNew
      cases link
      obtain ⟨other, there, isOpposite⟩ := half?_of_find? toNew
      rw [before] at there
      cases there
      refine ⟨_, half?_added_last added, ?_⟩
      rw [flow, isOpposite, Flow.opposite_opposite]
      rfl
    · obtain ⟨other, there, isOpposite⟩ := sound.peers place peer old before link.symm
      obtain ⟨otherNow, thereNow, same⟩ := half?_added_of_some added there
      exact ⟨otherNow, thereNow, by rw [same, isOpposite, flow]⟩

end Added

theorem half?_ensure : ∃ h, (t.ensure f).1.half? (t.ensure f).2 = some h ∧ h.flow = f := by
  rcases halves_ensure (t := t) (f := f) with ⟨same, found⟩ | ⟨-, place, added⟩
  · rw [half?, same]
    exact found
  · rw [place]
    exact ⟨_, half?_added_last added, rfl⟩

theorem Sound.ensure (sound : t.Sound) : (t.ensure f).1.Sound := by
  rcases halves_ensure (t := t) (f := f) with ⟨same, -⟩ | ⟨new, -, added⟩
  · have unchanged : (t.ensure f).1 = t := congrArg Tracker.mk same
    rw [unchanged]
    exact sound
  refine ⟨?_, peers_added added sound, ?_, ?_⟩
  · rw [added, List.map_append, map_link _ (by simp), List.nodup_append]
    refine ⟨sound.distinct, List.nodup_singleton _, ?_⟩
    intro a there b last same
    rw [List.map_singleton, List.mem_singleton] at last
    rw [same, last] at there
    exact new there
  · intro h there
    rcases mem_added added h there with ⟨old, member, records, -⟩ | nothing
    · rw [records]
      exact sound.ascending old member
    · rw [nothing]
      exact List.Pairwise.nil
  · intro h there absent
    rcases mem_added added h there with ⟨old, member, records, baseline⟩ | nothing
    · rw [records]
      exact sound.founded old member (baseline ▸ absent)
    · exact nothing

end Tracker

end SctpTrace.Transmission
