import SctpTrace.Proofs.Transmission.Recorded

/-!
What the halves have learned, and never lose: a baseline, a peer and an acknowledgement are set
once, points and counts do not go back, and retained retransmissions stay (`Half.retains_step`). All
halves keep their places (`Tracker.Retains`).
-/
namespace SctpTrace.Transmission

structure Record.Retains (r after : Record) : Prop where
  tsn : after.tsn = r.tsn
  first : after.first = r.first
  ack : ∀ ack, r.ack = some ack → after.ack = some ack
  retransmissions : r.retransmissions <+: after.retransmissions
  count : r.retransmissionCount ≤ after.retransmissionCount
  lastFrame : r.lastFrame ≤ after.lastFrame

structure Half.Retains (h after : Half) : Prop where
  flow : after.flow = h.flow
  baseline : ∀ first, h.baseline = some first → after.baseline = some first
  peer : ∀ place, h.peer = some place → after.peer = some place
  cumulative : ∀ point, h.cumulative = some point →
    ∃ reached, after.cumulative = some reached ∧ point ≤ reached
  records : ∀ relative r, Keyed.get? relative h.records = some r →
    ∃ later, Keyed.get? relative after.records = some later ∧ r.Retains later

def Tracker.Retains (t after : Tracker) : Prop :=
  ∀ i h, t.half? i = some h → ∃ later, after.half? i = some later ∧ h.Retains later

namespace Record

variable {r r' r'' : Record} {stamp : Stamp} {cap : Nat}

theorem Retains.refl (r : Record) : r.Retains r :=
  ⟨rfl, rfl, fun _ => id, List.prefix_rfl, Nat.le_refl _, UInt32.le_refl _⟩

theorem Retains.trans (first : r.Retains r') (second : r'.Retains r'') : r.Retains r'' :=
  ⟨second.tsn.trans first.tsn, second.first.trans first.first,
    fun ack known => second.ack ack (first.ack ack known),
    first.retransmissions.trans second.retransmissions, Nat.le_trans first.count second.count,
    UInt32.le_trans first.lastFrame second.lastFrame⟩

theorem retains_again : r.Retains (r.again stamp cap) := by
  unfold again resent
  split
  · exact .refl r
  · split
    · rename_i counts
      simp only [Record.counts, Bool.and_eq_true, decide_eq_true_eq] at counts
      refine ⟨rfl, rfl, fun _ => id, ?_, Nat.le_succ _, UInt32.le_of_lt counts.2⟩
      simp only
      split
      · exact List.prefix_append _ _
      · exact List.prefix_rfl
    · exact .refl r

theorem Acks.retains (acks : r.Acks stamp r') : r.Retains r' := by
  rcases acks with rfl | ⟨waits, rfl⟩
  · exact .refl r'
  · refine ⟨rfl, rfl, ?_, List.prefix_rfl, Nat.le_refl _, UInt32.le_refl _⟩
    intro ack known
    simp [awaits, known] at waits

end Record

namespace Half

variable {h h' h'' : Half} {limits : AckLimits} {cap : Nat} {stamp : Stamp}

theorem Retains.refl (h : Half) : h.Retains h :=
  ⟨rfl, fun _ => id, fun _ => id, fun point known => ⟨point, known, Nat.le_refl _⟩,
    fun _ r found => ⟨r, found, .refl r⟩⟩

theorem Retains.trans (first : h.Retains h') (second : h'.Retains h'') : h.Retains h'' := by
  refine ⟨second.flow.trans first.flow,
    fun tsn known => second.baseline tsn (first.baseline tsn known),
    fun place known => second.peer place (first.peer place known), ?_, ?_⟩
  · intro point known
    obtain ⟨reached, there, le⟩ := first.cumulative point known
    obtain ⟨later, last, leToo⟩ := second.cumulative reached there
    exact ⟨later, last, Nat.le_trans le leToo⟩
  · intro relative r found
    obtain ⟨r', there, retains⟩ := first.records relative r found
    obtain ⟨r'', last, retainsToo⟩ := second.records relative r' there
    exact ⟨r'', last, retains.trans retainsToo⟩

theorem point_cumulativeAck (cumulative : UInt32) {point : Nat}
    (known : h.cumulative = some point) :
    ∃ reached, (h.cumulativeAck limits cumulative stamp).1.cumulative = some reached ∧
      point ≤ reached := by
  have moved : ∀ relative, point ≤ max (h.cumulative.getD 0) relative := by
    intro relative
    rw [known]
    exact Nat.le_max_left _ _
  unfold cumulativeAck
  split
  · exact ⟨point, known, Nat.le_refl _⟩
  · split
    · exact ⟨point, known, Nat.le_refl _⟩
    · dsimp only
      split <;> exact ⟨_, rfl, moved _⟩

theorem retains_step (e : HalfEvent) : h.Retains (h.step limits cap e) := by
  cases e with
  | announce tsn =>
    simp only [step, setBaseline]
    split
    · exact .refl h
    · rename_i absent
      refine ⟨rfl, ?_, fun _ => id, (Retains.refl h).cumulative, (Retains.refl h).records⟩
      intro first known
      rw [absent] at known
      cases known
  | transmit tsn stamp =>
    obtain ⟨baseline, cumulative⟩ := transmit_fields h tsn stamp cap
    refine ⟨flow_step, ?_, ?_, ?_, ?_⟩
    · intro first known
      rw [step, baseline, known]
      rfl
    · intro place known
      rw [peer_step, known]
    · intro point known
      exact ⟨point, cumulative.trans known, Nat.le_refl _⟩
    · intro relative r found
      rw [step, get?_transmit, found]
      split
      · exact ⟨_, rfl, Record.retains_again⟩
      · exact ⟨r, rfl, .refl r⟩
  | sack chunk nonRenegable stamp =>
    have whole := acknowledges_sack h limits stamp chunk nonRenegable
    refine ⟨flow_step, ?_, ?_, ?_, ?_⟩
    · intro first known
      exact whole.others.2.1.trans known
    · intro place known
      rw [peer_step, known]
    · intro point known
      rw [step, cumulative_sack]
      exact point_cumulativeAck chunk.cumulative known
    · intro relative r found
      have kept := get?_ackStep_rel whole.records relative
      change Option.Rel _ (Keyed.get? relative h.records) _ at kept
      rw [found] at kept
      rw [step]
      generalize Keyed.get? relative (h.sack limits chunk nonRenegable stamp).1.records = later
        at kept
      cases kept with
      | some acks => exact ⟨_, rfl, acks.retains⟩

end Half

namespace Tracker

variable {t t' t'' : Tracker} {f : Flow} {id : Nat} {h after : Half}

theorem Retains.refl (t : Tracker) : t.Retains t := fun _ h there => ⟨h, there, .refl h⟩

theorem Retains.trans (first : t.Retains t') (second : t'.Retains t'') : t.Retains t'' := by
  intro i h there
  obtain ⟨h', now, retains⟩ := first i h there
  obtain ⟨h'', later, retainsToo⟩ := second i h' now
  exact ⟨h'', later, retains.trans retainsToo⟩

theorem retains_setHalf (found : t.half? id = some h) (retains : h.Retains after) :
    t.Retains (t.setHalf id after) := by
  intro i g there
  rw [half?_setHalf found]
  split
  · rename_i same
    rw [← same, found] at there
    cases there
    exact ⟨after, rfl, retains⟩
  · exact ⟨g, there, .refl g⟩

theorem Sound.retains_ensure (sound : t.Sound) : t.Retains (t.ensure f).1 := by
  intro i h there
  refine ⟨_, sound.half?_ensure_of_some there, rfl, fun _ => id, ?_,
    (Half.Retains.refl h).cumulative, (Half.Retains.refl h).records⟩
  intro place known
  obtain ⟨other, opposite, isOpposite⟩ := sound.peers i place h there known
  have seen : ¬ (f ∉ t.flows ∧ h.flow = f.opposite) := by
    rintro ⟨new, own⟩
    refine new (mem_flows_iff.mpr ⟨place, other, opposite, ?_⟩)
    rw [isOpposite, own, Flow.opposite_opposite]
  simp only [if_neg seen]
  exact known

end Tracker

end SctpTrace.Transmission
