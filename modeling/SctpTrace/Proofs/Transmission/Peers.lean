import SctpTrace.Proofs.Transmission.Flows

/-!
Which half a SACK acknowledges. Halves of opposite flows know each other as peers (`Linked`), so
that a SACK goes to the half of the opposite flow exactly if that flow was seen
(`Linked.acknowledged?_eq`).
-/
namespace SctpTrace.Transmission.Tracker

variable {t : Tracker} {f : Flow} {h after : Half} {i j id : Nat}

def flows (t : Tracker) : List Flow := t.halves.map (·.flow)

def Linked (t : Tracker) : Prop :=
  ∀ (i j : Nat) (h other : Half), t.half? i = some h → t.half? j = some other →
    other.flow = h.flow.opposite → h.peer = some j

def acknowledged? (t : Tracker) (id : Nat) : Option Flow :=
  ((t.peer? id).bind t.half?).map (·.flow)

theorem linked_empty : empty.Linked := by
  intro i j h other absent
  cases absent

theorem Sound.place_eq (sound : t.Sound) {g g' : Half} (here : t.half? i = some g)
    (there : t.half? j = some g') (same : g.flow = g'.flow) : i = j :=
  place_eq_of_key sound.distinct here there same

theorem Sound.find?_eq_some (sound : t.Sound) (here : t.half? i = some h) :
    t.find? h.flow = some i := by
  cases found : t.find? h.flow with
  | none =>
    have absent := List.findIdx?_eq_none_iff.mp found h (List.mem_of_getElem? here)
    simp at absent
  | some j =>
    obtain ⟨g, there, same⟩ := half?_of_find? found
    rw [sound.place_eq there here same]

theorem mem_flows_iff : f ∈ t.flows ↔ ∃ i h, t.half? i = some h ∧ h.flow = f := by
  constructor
  · intro seen
    obtain ⟨h, member, own⟩ := List.mem_map.mp seen
    obtain ⟨i, here⟩ := List.mem_iff_getElem?.mp member
    exact ⟨i, h, here, own⟩
  · rintro ⟨i, h, here, own⟩
    exact List.mem_map.mpr ⟨h, List.mem_of_getElem? here, own⟩

theorem flows_ensure : (t.ensure f).1.flows = t.flows ++ if f ∈ t.flows then [] else [f] := by
  rcases halves_ensure (t := t) (f := f) with ⟨same, h, here, own⟩ | ⟨new, -, added⟩
  · rw [flows, same, if_pos (mem_flows_iff.mpr ⟨_, h, here, own⟩), List.append_nil]
    rfl
  · have absent : f ∉ t.flows := new
    rw [flows, added, List.map_append, map_link _ (fun _ _ => rfl), if_neg absent]
    rfl

theorem mem_flows_ensure {g : Flow} : g ∈ (t.ensure f).1.flows ↔ g ∈ t.flows ∨ g = f := by
  rw [flows_ensure, List.mem_append]
  by_cases seen : f ∈ t.flows
  · rw [if_pos seen, or_iff_left List.not_mem_nil, or_iff_left_of_imp]
    rintro rfl
    exact seen
  · rw [if_neg seen, List.mem_singleton]

theorem Linked.setHalf (linked : t.Linked) (found : t.half? id = some h) (keeps : h.Keeps after) :
    (t.setHalf id after).Linked := by
  have before : ∀ {i g}, (t.setHalf id after).half? i = some g →
      ∃ old, t.half? i = some old ∧ g.flow = old.flow ∧ g.peer = old.peer := by
    intro i g here
    rw [half?_setHalf found] at here
    split at here
    · rename_i same
      cases here
      exact ⟨h, same ▸ found, keeps.flow, keeps.peer⟩
    · exact ⟨g, here, rfl, rfl⟩
  intro i j g other here there opposite
  obtain ⟨old, hereBefore, flow, peer⟩ := before here
  obtain ⟨oldOther, thereBefore, flowToo, -⟩ := before there
  rw [peer]
  exact linked i j old oldOther hereBefore thereBefore (by rw [← flowToo, opposite, flow])

theorem Linked.ensure (linked : t.Linked) (sound : t.Sound) : (t.ensure f).1.Linked := by
  rcases halves_ensure (t := t) (f := f) with ⟨same, -⟩ | ⟨new, -, added⟩
  · have unchanged : (t.ensure f).1 = t := congrArg Tracker.mk same
    rw [unchanged]
    exact linked
  -- A half is the new one, or it was there and its flow is not the new one.
  have before : ∀ {i g}, (t.ensure f).1.half? i = some g →
      i = t.halves.length ∧ g.flow = f ∧ g.peer = t.find? f.opposite ∨
        ∃ old, t.half? i = some old ∧ g.flow = old.flow ∧ g.flow ≠ f ∧
          g.peer = if t.find? f.opposite = some i then some t.halves.length else old.peer := by
    intro i g here
    have whole := here
    rw [half?, added] at here
    rcases Isolation.TrackerSim.peer_added here with ⟨place, rfl⟩ | ⟨old, place, peer⟩
    · exact Or.inl ⟨place, rfl, rfl⟩
    · obtain ⟨now, hereNow, flow⟩ := half?_added_of_some added place
      rw [whole] at hereNow
      cases hereNow
      refine Or.inr ⟨old, place, flow, ?_, peer⟩
      rintro rfl
      exact new (flow ▸ List.mem_map_of_mem (List.mem_of_getElem? place))
  intro i j g other here there opposite
  rcases before here with ⟨rfl, own, peer⟩ | ⟨old, place, flow, -, peer⟩ <;>
    rcases before there with ⟨rfl, ownToo, -⟩ | ⟨oldOther, placeToo, flowToo, notNew, -⟩
  · rw [own, ownToo] at opposite
    exact absurd (congrArg Flow.direction opposite).symm (Direction.opposite_ne f.direction)
  · rw [peer, ← own, ← opposite, flowToo]
    exact sound.find?_eq_some placeToo
  · have isOpposite : f.opposite = old.flow := by
      rw [← flow, ← ownToo, opposite, Flow.opposite_opposite]
    rw [peer, isOpposite, if_pos (sound.find?_eq_some place)]
  · have other : t.find? f.opposite ≠ some i := by
      intro found
      obtain ⟨same, isThere, own⟩ := half?_of_find? found
      rw [place] at isThere
      cases isThere
      refine notNew ?_
      rw [opposite, flow, own, Flow.opposite_opposite]
    rw [peer, if_neg other]
    exact linked i j old oldOther place placeToo (by rw [← flowToo, opposite, flow])

/-- The SACKs of a half acknowledge the opposite flow exactly if that was seen. -/
theorem Linked.acknowledged?_eq (linked : t.Linked) (sound : t.Sound) (here : t.half? i = some h) :
    t.acknowledged? i = if h.flow.opposite ∈ t.flows then some h.flow.opposite else none := by
  have peer : t.peer? i = h.peer := by simp [peer?, here]
  rw [acknowledged?, peer]
  split
  · rename_i seen
    obtain ⟨j, other, there, opposite⟩ := mem_flows_iff.mp seen
    rw [linked i j h other here there opposite, Option.bind_some, there, Option.map_some, opposite]
  · rename_i unseen
    cases known : h.peer with
    | none => rfl
    | some j =>
      obtain ⟨other, there, opposite⟩ := sound.peers i j h here known
      exact absurd (mem_flows_iff.mpr ⟨j, other, there, opposite⟩) unseen

end SctpTrace.Transmission.Tracker
