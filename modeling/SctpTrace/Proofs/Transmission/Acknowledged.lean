import Mathlib.Data.List.Forall2
import SctpTrace.Transmission.Sack

/-!
What a SACK does to the records of a half: it acknowledges ranges, one after the other, and in each
of them the records that still wait for an acknowledgement (`acknowledges_sack`).
-/
namespace SctpTrace.Transmission.Half

/-- Ranges acknowledged in one frame, and what was reported of them. -/
inductive Acknowledges (stamp : Stamp) : Half → List Acked → Half → Prop where
  | nothing (h : Half) : Acknowledges stamp h [] h
  | range {h after : Half} {later : List Acked} (low high : Nat) (kind : AckKind)
      (rest : Acknowledges stamp (h.acknowledge low high stamp kind).1 later after) :
      Acknowledges stamp h ((h.acknowledge low high stamp kind).2 ++ later) after

/-- A record stays as it is, or gets the acknowledgement that it waited for. -/
def AckStep (stamp : Stamp) (entry after : Nat × Record) : Prop :=
  after = entry ∨ entry.2.awaits stamp = true ∧ after = (entry.1, entry.2.acknowledged stamp)

variable {h after : Half} {stamp : Stamp} {facts later : List Acked}
  {entry entry' : Nat × Record} {limits : AckLimits}

theorem AckStep.relative (step : AckStep stamp entry entry') : entry'.1 = entry.1 := by
  rcases step with rfl | ⟨-, rfl⟩ <;> rfl

theorem AckStep.first (step : AckStep stamp entry entry') : entry'.2.first = entry.2.first := by
  rcases step with rfl | ⟨-, rfl⟩ <;> rfl

theorem AckStep.isSome (step : AckStep stamp entry entry') (acked : entry.2.ack.isSome = true) :
    entry'.2.ack.isSome = true := by
  rcases step with rfl | ⟨-, rfl⟩
  · exact acked
  · rfl

theorem AckStep.trans {entry'' : Nat × Record} (step : AckStep stamp entry entry')
    (next : AckStep stamp entry' entry'') : AckStep stamp entry entry'' := by
  rcases step with rfl | ⟨awaited, rfl⟩
  · exact next
  · rcases next with rfl | ⟨again, -⟩
    · exact Or.inr ⟨awaited, rfl⟩
    · simp [Record.awaits, Record.acknowledged] at again

theorem ackStep_ackEntry (low high : Nat) : AckStep stamp entry (ackEntry low high stamp entry) := by
  unfold ackEntry
  split
  · rename_i covered
    simp only [covers, Bool.and_eq_true] at covered
    exact Or.inr ⟨covered.2, rfl⟩
  · exact Or.inl rfl

namespace Acknowledges

theorem append {middle : Half} (first : Acknowledges stamp h facts middle)
    (second : Acknowledges stamp middle later after) :
    Acknowledges stamp h (facts ++ later) after := by
  induction first with
  | nothing => exact second
  | range low high kind _ ih =>
    rw [List.append_assoc]
    exact .range low high kind (ih second)

theorem single (stamp : Stamp) (low high : Nat) (kind : AckKind) :
    Acknowledges stamp h (h.acknowledge low high stamp kind).2
      (h.acknowledge low high stamp kind).1 := by
  rw [← List.append_nil (h.acknowledge low high stamp kind).2]
  exact .range low high kind (.nothing _)

theorem others (acknowledges : Acknowledges stamp h facts after) :
    after.flow = h.flow ∧ after.baseline = h.baseline ∧ after.cumulative = h.cumulative ∧
      after.peer = h.peer := by
  induction acknowledges with
  | nothing => exact ⟨rfl, rfl, rfl, rfl⟩
  | range _ _ _ _ ih => exact ih

theorem records (acknowledges : Acknowledges stamp h facts after) :
    List.Forall₂ (AckStep stamp) h.records after.records := by
  induction acknowledges with
  | nothing h => exact List.forall₂_same.mpr fun entry _ => Or.inl rfl
  | @range h _ _ low high kind _ ih =>
    rw [acknowledge, List.forall₂_map_left_iff] at ih
    exact ih.imp fun entry entry' step => (ackStep_ackEntry low high).trans step

theorem source (acknowledges : Acknowledges stamp h facts after) (there : entry' ∈ after.records) :
    ∃ entry ∈ h.records, AckStep stamp entry entry' := by
  obtain ⟨i, bound, rfl⟩ := List.getElem_of_mem there
  have steps := List.forall₂_iff_get.mp acknowledges.records
  have bound' : i < h.records.length := by omega
  exact ⟨h.records[i], List.getElem_mem bound', steps.2 i bound' bound⟩

end Acknowledges

theorem acknowledges_gapAck (cumulative : UInt32) (block : Wire.GapBlock) (kind : AckKind) :
    Acknowledges stamp h (h.gapAck limits cumulative block stamp kind).2
      (h.gapAck limits cumulative block stamp kind).1 := by
  unfold gapAck
  split
  · exact .nothing h
  · split
    · exact .nothing h
    · dsimp only
      split
      · exact .nothing h
      · exact .single stamp _ _ kind

theorem acknowledges_gapAcks (cumulative : UInt32) (kind : AckKind) (blocks : List Wire.GapBlock) :
    Acknowledges stamp h (gapAcks limits cumulative stamp kind h blocks).2
      (gapAcks limits cumulative stamp kind h blocks).1 := by
  induction blocks generalizing h with
  | nil => exact .nothing h
  | cons block rest ih => exact (acknowledges_gapAck cumulative block kind).append ih

theorem acknowledges_cumulativeAck (h : Half) (limits : AckLimits) (stamp : Stamp)
    (cumulative : UInt32) :
    Acknowledges stamp
      { h with cumulative := (h.cumulativeAck limits cumulative stamp).1.cumulative }
      (h.cumulativeAck limits cumulative stamp).2
      (h.cumulativeAck limits cumulative stamp).1 := by
  unfold cumulativeAck
  split
  · exact .nothing h
  · split
    · exact .nothing h
    · dsimp only
      split
      · exact .nothing _
      · exact .single stamp _ _ .cumulative

theorem acknowledges_gaps (h : Half) (limits : AckLimits) (stamp : Stamp) (sack : Wire.SackChunk) :
    ∃ later, (h.applySack limits sack stamp).2 =
        (h.cumulativeAck limits sack.cumulative stamp).2 ++ later ∧
      Acknowledges stamp (h.cumulativeAck limits sack.cumulative stamp).1 later
        (h.applySack limits sack stamp).1 := by
  refine ⟨_, List.append_assoc _ _ _, ?_⟩
  exact (acknowledges_gapAcks sack.cumulative .gap sack.gaps).append
    (acknowledges_gapAcks sack.cumulative .nonRenegableGap sack.nonRenegableGaps)

theorem cumulative_sack (h : Half) (limits : AckLimits) (stamp : Stamp) (sack : Wire.SackChunk)
    (nonRenegable : Bool) :
    (h.sack limits sack nonRenegable stamp).1.cumulative =
      (h.cumulativeAck limits sack.cumulative stamp).1.cumulative := by
  obtain ⟨later, -, gaps⟩ := acknowledges_gaps h limits stamp sack
  exact gaps.others.2.2.1

theorem acknowledges_sack (h : Half) (limits : AckLimits) (stamp : Stamp)
    (sack : Wire.SackChunk) (nonRenegable : Bool) :
    Acknowledges stamp
      { h with cumulative := (h.sack limits sack nonRenegable stamp).1.cumulative }
      (h.sack limits sack nonRenegable stamp).2.acked
      (h.sack limits sack nonRenegable stamp).1 := by
  obtain ⟨later, facts, gaps⟩ := acknowledges_gaps h limits stamp sack
  have whole := (acknowledges_cumulativeAck h limits stamp sack.cumulative).append gaps
  rw [cumulative_sack]
  rw [← facts] at whole
  exact whole

end SctpTrace.Transmission.Half
