import SctpTrace.Proofs.Transmission.Recorded

/-!
The states that a half can be in, and what is true in all of them: the cumulative point has a
baseline and lies in the lower half of the circle (`Reachable.pointed`), and a record recalls the
frames of its TSN (`Reachable.recalls`), so that it was never retransmitted more often than there
were frames for.
-/
namespace SctpTrace.Transmission

namespace Half

/-- A new half, moved on by what reaches it, and linked to its peer at some time. -/
inductive Reachable (limits : AckLimits) (cap : Nat) : Half → Prop where
  | new (flow : Flow) : Reachable limits cap (new flow)
  | linked {h : Half} (peer : Option Nat) (before : Reachable limits cap h) :
      Reachable limits cap { h with peer := peer }
  | step {h : Half} (e : HalfEvent) (before : Reachable limits cap h) :
      Reachable limits cap (h.step limits cap e)

structure Pointed (h : Half) : Prop where
  based : h.baseline = none → h.cumulative = none
  low : ∀ point ∈ h.cumulative, point < 2147483648

variable {h : Half} {limits : AckLimits} {cap : Nat} {tsn : UInt32} {stamp : Stamp}

theorem Pointed.cumulativeAck (pointed : h.Pointed) (cumulative : UInt32) :
    (h.cumulativeAck limits cumulative stamp).1.Pointed := by
  unfold Half.cumulativeAck
  split
  · exact pointed
  · rename_i relative place
    split
    · exact pointed
    · rename_i near
      have low : ∀ point ∈ some (max (h.cumulative.getD 0) relative), point < 2147483648 := by
        rintro point ⟨⟩
        refine Nat.max_lt.mpr ⟨?_, by omega⟩
        cases known : h.cumulative with
        | none => decide
        | some reached => exact pointed.low reached known
      have based : h.baseline ≠ none := by
        intro absent
        simp [relative?, absent] at place
      dsimp only
      split
      · exact ⟨fun absent => absurd absent based, low⟩
      · exact ⟨fun absent => absurd absent based, low⟩

theorem Pointed.step (pointed : h.Pointed) (e : HalfEvent) : (h.step limits cap e).Pointed := by
  cases e with
  | announce tsn =>
    simp only [Half.step, setBaseline]
    split
    · exact pointed
    · exact ⟨by rintro ⟨⟩, pointed.low⟩
  | transmit tsn stamp =>
    obtain ⟨baseline, cumulative⟩ := transmit_fields h tsn stamp cap
    refine ⟨?_, ?_⟩
    · intro absent
      rw [Half.step, baseline] at absent
      cases absent
    · rw [Half.step, cumulative]
      exact pointed.low
  | sack chunk nonRenegable stamp =>
    have moved : (h.cumulativeAck limits chunk.cumulative stamp).1.Pointed :=
      pointed.cumulativeAck chunk.cumulative
    have whole := acknowledges_sack h limits stamp chunk nonRenegable
    have point := cumulative_sack h limits stamp chunk nonRenegable
    have baseline := (acknowledges_cumulativeAck h limits stamp chunk.cumulative).others.2.1
    refine ⟨?_, ?_⟩
    · rw [Half.step, whole.others.2.1, point]
      rw [← baseline]
      exact moved.based
    · rw [Half.step, point]
      exact moved.low

theorem Reachable.pointed (reachable : h.Reachable limits cap) : h.Pointed := by
  induction reachable with
  | new flow => exact ⟨fun _ => rfl, by rintro _ ⟨⟩⟩
  | linked peer _ ih => exact ⟨ih.based, ih.low⟩
  | step e _ ih => exact ih.step e

theorem Reachable.ascending (reachable : h.Reachable limits cap) : h.records.Ascending := by
  induction reachable with
  | new flow => exact List.Pairwise.nil
  | linked peer _ ih => exact ih
  | step e _ ih =>
    cases e with
    | announce tsn => exact keeps_setBaseline.ascending ih
    | transmit tsn stamp => exact keeps_transmit.ascending ih
    | sack chunk nonRenegable stamp => exact (keeps_sack chunk nonRenegable).ascending ih

end Half

/-- Every counted retransmission lies in a later frame than what was counted before. -/
structure Record.Spread (r : Record) : Prop where
  frames : r.first.frame.toNat + r.retransmissionCount ≤ r.lastFrame.toNat
  retained : r.retransmissions.length ≤ r.retransmissionCount

theorem Record.Recalls.spread {r : Record} {cap : Nat} {frames : List FrameNumber}
    (recalls : r.Recalls cap frames) : r.Spread := by
  refine ⟨recalls.counted, ?_⟩
  rw [recalls.retained]
  exact Nat.min_le_left _ _

namespace Half

variable {h : Half} {limits : AckLimits} {cap : Nat}

theorem Reachable.recorded (reachable : h.Reachable limits cap) :
    ∃ history, h.Recorded cap history := by
  induction reachable with
  | new flow => exact ⟨[], recorded_new flow⟩
  | linked peer _ ih =>
    obtain ⟨history, recorded⟩ := ih
    exact ⟨history, recorded.linked peer⟩
  | step e _ ih =>
    obtain ⟨history, recorded⟩ := ih
    exact ⟨history ++ [e], recorded.step limits e⟩

theorem Reachable.recalls (reachable : h.Reachable limits cap) {relative : Nat} {r : Record}
    (found : Keyed.get? relative h.records = some r) : ∃ frames, r.Recalls cap frames := by
  obtain ⟨history, recorded⟩ := reachable.recorded
  exact ⟨_, (recorded.recalls _ _ (recorded.record?_eq_some found)).2⟩

end Half

namespace Tracker

variable {t : Tracker} {limits : AckLimits} {cap : Nat} {id : Nat} {h : Half}

def Reachable (limits : AckLimits) (cap : Nat) (t : Tracker) : Prop :=
  ∀ h ∈ t.halves, h.Reachable limits cap

theorem Reachable.step (reachable : t.Reachable limits cap) (found : t.half? id = some h)
    (e : HalfEvent) : (t.setHalf id (h.step limits cap e)).Reachable limits cap := by
  intro other there
  rcases List.mem_or_eq_of_mem_set there with old | rfl
  · exact reachable other old
  · exact .step e (reachable h (List.mem_of_getElem? found))

theorem Reachable.link (reachable : t.Reachable limits cap) (peer : Option Nat) :
    (t.link id peer).Reachable limits cap := by
  intro h there
  obtain ⟨i, here⟩ := List.mem_iff_getElem?.mp there
  have linked := Isolation.TrackerSim.half?_link t id peer i
  rw [half?, here] at linked
  obtain ⟨old, before, rfl⟩ := Option.map_eq_some_iff.mp linked.symm
  have known := reachable old (List.mem_of_getElem? before)
  split
  · exact .linked _ known
  · exact known

theorem Reachable.ensure (reachable : t.Reachable limits cap) (f : Flow) :
    (t.ensure f).1.Reachable limits cap := by
  rcases halves_ensure (t := t) (f := f) with ⟨same, -⟩ | ⟨-, -, added⟩
  · rw [Tracker.Reachable, same]
    exact reachable
  · intro h there
    rw [added, List.mem_append, List.mem_singleton] at there
    rcases there with old | rfl
    · exact reachable.link _ h old
    · exact .linked _ (.new f)

end Tracker

end SctpTrace.Transmission
