import SctpTrace.Proofs.Transmission.Retransmitted

/-!
The frame in which a TSN exceeds the cap. As many frames as the cap and one more carried the TSN
before it, and there is one such frame if there are enough (`crossing_eq_count`). Every copy of the
TSN in it is told the same count (`Remembers.crosses`).
-/
namespace SctpTrace.Transmission

def earlier (frames : List FrameNumber) (frame : FrameNumber) : Nat :=
  (frames.filter fun f => f < frame).dedup.length

/-- The number of times that a frame comes with just so many frames before it. -/
def crossing (n : Nat) (frames : List FrameNumber) : Nat :=
  frames.countP fun frame => earlier frames frame == n

section Frames

variable {frames other : List FrameNumber} {f frame : FrameNumber} {n : Nat}

theorem earlier_of_perm (same : frames.Perm other) : earlier frames frame = earlier other frame :=
  (same.filter _).dedup.length_eq

theorem crossing_of_perm (same : frames.Perm other) : crossing n frames = crossing n other := by
  rw [crossing, same.countP_eq]
  exact List.countP_congr fun frame _ => by rw [earlier_of_perm same]

theorem earlier_lt_length {later : List FrameNumber} (there : f ∈ later)
    (all : ∀ g ∈ frames, g < f → g ∈ later) : earlier frames f < later.dedup.length := by
  have distinct : (f :: (frames.filter fun g => g < f).dedup).Nodup := by
    refine List.nodup_cons.mpr ⟨?_, List.nodup_dedup _⟩
    intro itself
    have before := (List.mem_filter.mp (List.mem_dedup.mp itself)).2
    exact absurd (of_decide_eq_true before) (UInt32.lt_irrefl f)
  refine distinct.length_le_of_subset ?_
  intro g member
  rw [List.mem_dedup]
  rcases List.mem_cons.mp member with rfl | before
  · exact there
  · obtain ⟨known, less⟩ := List.mem_filter.mp (List.mem_dedup.mp before)
    exact all g known (of_decide_eq_true less)

theorem earlier_lt (there : f ∈ frames) (before : f < frame) :
    earlier frames f < earlier frames frame := by
  refine earlier_lt_length (List.mem_filter.mpr ⟨there, decide_eq_true before⟩) ?_
  intro g known less
  exact List.mem_filter.mpr ⟨known, decide_eq_true (UInt32.lt_trans less before)⟩

theorem earlier_inj (here : f ∈ frames) (there : frame ∈ frames)
    (same : earlier frames f = earlier frames frame) : f = frame := by
  by_contra different
  rcases UInt32.lt_or_lt_of_ne different with less | more
  · exact absurd same (Nat.ne_of_lt (earlier_lt here less))
  · exact absurd same (Nat.ne_of_gt (earlier_lt there more))

theorem crossing_eq_zero (few : frames.dedup.length ≤ n) : crossing n frames = 0 := by
  rw [crossing, List.countP_eq_zero]
  intro frame there crossed
  have bound : earlier frames frame < frames.dedup.length :=
    earlier_lt_length there fun g known _ => known
  have number := beq_iff_eq.mp crossed
  omega

theorem exists_earlier_eq (enough : n < frames.dedup.length) :
    ∃ frame ∈ frames, earlier frames frame = n := by
  have distinct : (frames.dedup.map (earlier frames)).Nodup := by
    refine (List.nodup_dedup frames).map_on fun f here g there same => ?_
    exact earlier_inj (List.mem_dedup.mp here) (List.mem_dedup.mp there) same
  have inside : frames.dedup.map (earlier frames) ⊆ List.range frames.dedup.length := by
    intro number member
    obtain ⟨frame, there, rfl⟩ := List.mem_map.mp member
    exact List.mem_range.mpr (earlier_lt_length (List.mem_dedup.mp there) fun g known _ => known)
  have all := (List.subperm_of_subset distinct inside).perm_of_length_le (by simp)
  obtain ⟨frame, there, number⟩ := List.mem_map.mp (all.mem_iff.mpr (List.mem_range.mpr enough))
  exact ⟨frame, List.mem_dedup.mp there, number⟩

theorem crossing_eq_count (there : frame ∈ frames) (number : earlier frames frame = n) :
    crossing n frames = frames.count frame := by
  rw [crossing, List.count]
  refine List.countP_congr fun f here => ?_
  rw [beq_iff_eq, beq_iff_eq]
  refine ⟨fun same => earlier_inj here there (same.trans number.symm), ?_⟩
  rintro rfl
  exact number

/- A frame that does not come before the others. -/

section Last

variable {last : FrameNumber}

theorem length_dedup_concat (late : ∀ f ∈ frames, f ≤ last) :
    (frames ++ [last]).dedup.length = earlier frames last + 1 := by
  have same : (frames ++ [last]).dedup.Perm
      ((frames.filter fun f => f < last).dedup ++ [last]) := by
    have apart : last ∉ (frames.filter fun f => f < last).dedup := by
      intro itself
      have before := (List.mem_filter.mp (List.mem_dedup.mp itself)).2
      exact absurd (of_decide_eq_true before) (UInt32.lt_irrefl last)
    rw [List.perm_ext_iff_of_nodup (List.nodup_dedup _)
      (List.concat_eq_append ▸ (List.nodup_dedup _).concat apart)]
    intro f
    simp only [List.mem_dedup, List.mem_append, List.mem_filter, List.mem_singleton,
      decide_eq_true_eq]
    constructor
    · rintro (there | isLast)
      · by_cases itself : f = last
        · exact Or.inr itself
        · exact Or.inl ⟨there, UInt32.lt_of_le_of_ne (late f there) itself⟩
      · exact Or.inr isLast
    · rintro (⟨there, -⟩ | isLast)
      · exact Or.inl there
      · exact Or.inr isLast
  rw [same.length_eq, List.length_append, List.length_singleton, earlier]

theorem earlier_concat (before : frame ≤ last) :
    earlier (frames ++ [last]) frame = earlier frames frame := by
  have notBefore : ¬ last < frame := UInt32.not_lt.mpr before
  rw [earlier, List.filter_append, List.filter_singleton, decide_eq_false notBefore]
  simp [earlier]

theorem crossing_concat (late : ∀ f ∈ frames, f ≤ last) : crossing n (frames ++ [last]) =
    crossing n frames + if earlier frames last = n then 1 else 0 := by
  have old : ∀ f ∈ frames, (earlier (frames ++ [last]) f == n) = true ↔
      (earlier frames f == n) = true :=
    fun f there => by rw [earlier_concat (late f there)]
  rw [crossing, List.countP_append, List.countP_congr old, List.countP_singleton,
    earlier_concat (UInt32.le_refl last)]
  simp only [beq_iff_eq, crossing]

end Last

end Frames

namespace Half

variable {h : Half} {cap : Nat} {tsn : UInt32} {stamps : List Stamp} {stamp : Stamp}

/-- The limit is exceeded by every copy of the TSN that comes with one frame more than the cap
before it. -/
theorem Remembers.crosses (remembers : h.Remembers cap tsn stamps)
    (ordered : (stamps ++ [stamp]).Pairwise fun s s' => s.frame ≤ s'.frame) :
    ((h.transmit tsn stamp cap).2.retransmission.any fun r =>
        r.historyTruncated && r.count == cap + 1) =
      (earlier (stamps.map (·.frame)) stamp.frame == cap + 1) := by
  obtain ⟨inOrder, -, last⟩ := List.pairwise_append.mp ordered
  have late : ∀ s ∈ stamps, s.frame ≤ stamp.frame := fun s there =>
    last s there stamp List.mem_cons_self
  have tells := remembers.tells late
  cases retransmitted : (h.transmit tsn stamp cap).2.retransmission with
  | none =>
    -- All stamps are of one frame.
    have first := tells.first.mp retransmitted
    have none : (stamps.map (·.frame)).filter (fun f => f < stamp.frame) = [] := by
      rw [List.filter_eq_nil_iff]
      intro f there
      obtain ⟨s, member, rfl⟩ := List.mem_map.mp there
      cases stamps with
      | nil => cases member
      | cons start rest =>
        have same : start.frame = stamp.frame := Option.some.inj first
        rw [decide_eq_true_eq, UInt32.not_lt, ← same]
        rcases List.mem_cons.mp member with rfl | later
        · exact UInt32.le_refl _
        · exact List.rel_of_pairwise_cons inOrder later
    rw [earlier, none]
    rfl
  | some told =>
    have exact := tells.told told retransmitted
    have count : told.count = earlier (stamps.map (·.frame)) stamp.frame := by
      have distinct := exact.count
      have before : ∀ f ∈ stamps.map (·.frame), f ≤ stamp.frame := by
        intro f there
        obtain ⟨s, member, rfl⟩ := List.mem_map.mp there
        exact late s member
      rw [List.map_append, List.map_singleton, length_dedup_concat before] at distinct
      exact Nat.succ.inj distinct
    rw [Option.any_some, ← count, Bool.eq_iff_iff, Bool.and_eq_true, exact.truncated, beq_iff_eq]
    omega

end Half

end SctpTrace.Transmission
