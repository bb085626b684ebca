import SctpTrace.Proofs.Transmission.GapRange

/-!
A SACK acknowledges one range after the other, and the ranges may overlap. What it does amounts to
one pass over the records, in which the first range that covers a record decides on the kind of its
acknowledgement (`alike_applySack`). Only for the order of what is reported does it matter in which
order the gap blocks of a list stand (`sack_of_permuted`).
-/
namespace SctpTrace.Transmission

open Wire

/-- The same half, and the same reports in some order. -/
structure Alike (one other : Half × List Acked) : Prop where
  half : one.1 = other.1
  acked : one.2.Perm other.2

structure SameFindings (one other : Half × SackFacts) : Prop where
  alike : Alike (one.1, one.2.acked) (other.1, other.2.acked)
  gapAcked : one.2.gapAcked = other.2.gapAcked
  threshold : one.2.thresholdExceeded = other.2.thresholdExceeded

/-- No TSN is reported twice, a record is reported exactly if its acknowledgement changed, and what
is reported is what the record then says. -/
structure ReportsChanges (h : Half) (stamp : Stamp) (done : Half × SackFacts) : Prop where
  once : (done.2.acked.map (·.tsn)).Nodup
  exactly : ∀ place, (∃ a ∈ done.2.acked, a.relative = place) ↔ done.1.ack? place ≠ h.ack? place
  shown : ∀ a ∈ done.2.acked, ∃ r, Keyed.get? a.relative done.1.records = some r ∧
    r.ack = some stamp ∧ a = ⟨r.tsn, a.relative, r.first.frame, r.roundTrip?, a.kind⟩

theorem Alike.trans {one other another : Half × List Acked} (first : Alike one other)
    (second : Alike other another) : Alike one another :=
  ⟨first.half.trans second.half, first.acked.trans second.acked⟩

theorem Alike.of_eq {one other : Half × List Acked} (same : one = other) : Alike one other :=
  ⟨congrArg Prod.fst same, .of_eq (congrArg Prod.snd same)⟩

theorem Alike.symm {one other : Half × List Acked} (alike : Alike one other) : Alike other one :=
  ⟨alike.half.symm, alike.acked.symm⟩

namespace Half

def fact? (cover : Nat → Option AckKind) (stamp : Stamp) (entry : Nat × Record) : Option Acked :=
  if entry.2.awaits stamp then (cover entry.1).map fun kind => ackedFact stamp kind entry else none

def ackReported (cover : Nat → Option AckKind) (stamp : Stamp) (entry : Nat × Record) :
    Nat × Record :=
  if (fact? cover stamp entry).isSome then (entry.1, entry.2.acknowledged stamp) else entry

def ackCovered (h : Half) (cover : Nat → Option AckKind) (stamp : Stamp) : Half × List Acked :=
  ({ h with records := h.records.map (ackReported cover stamp) },
    h.records.filterMap (fact? cover stamp))

def coverWhere (test : Nat → Bool) (kind : AckKind) (place : Nat) : Option AckKind :=
  if test place then some kind else none

/-- The place lies in the range of a gap block that is neither malformed nor too long. -/
def reaches (limits : AckLimits) (baseline : Option UInt32) (cumulative : UInt32) (place : Nat)
    (block : GapBlock) : Bool :=
  match baseline with
  | none => false
  | some first =>
    let low := Serial.distance first cumulative + block.start.toNat
    let high := Serial.distance first cumulative + block.stop.toNat
    decide (block.start ≤ block.stop) && decide (high < 4294967296) &&
      decide (high - low < limits.span) && decide (low ≤ place) && decide (place ≤ high)

def pointReaches (h : Half) (limits : AckLimits) (cumulative : UInt32) (place : Nat) : Bool :=
  match h.relative? cumulative with
  | none => false
  | some relative =>
    decide (relative < 2147483648) && decide (h.advance relative ≤ limits.span) &&
      decide (relative - (limits.span - 1) ≤ place) && decide (place ≤ relative)

/-- How a SACK acknowledges the record at a place, if it does: as the first of its ranges there. -/
def sackCover (h : Half) (limits : AckLimits) (c : SackChunk) (place : Nat) : Option AckKind :=
  ((coverWhere (h.pointReaches limits c.cumulative) .cumulative place).or
    (coverWhere (fun place => c.gaps.any (reaches limits h.baseline c.cumulative place))
      .gap place)).or
    (coverWhere (fun place => c.nonRenegableGaps.any (reaches limits h.baseline c.cumulative place))
      .nonRenegableGap place)

variable {h after : Half} {limits before : AckLimits} {cap : Nat} {stamp : Stamp}
  {cumulative : UInt32} {kind : AckKind} {cover later : Nat → Option AckKind}
  {test : Nat → Bool} {entry : Nat × Record} {a : Acked}

theorem awaits_acknowledged (r : Record) (ack : Stamp) :
    (r.acknowledged ack).awaits stamp = false := rfl

theorem fact?_eq_some_iff : fact? cover stamp entry = some a ↔
    entry.2.awaits stamp = true ∧
      ∃ kind, cover entry.1 = some kind ∧ ackedFact stamp kind entry = a := by
  rw [fact?]
  split
  · rename_i waits
    rw [Option.map_eq_some_iff, and_iff_right waits]
  · rename_i waits
    simp [waits]

theorem fact?_coverWhere :
    fact? (coverWhere test kind) stamp entry =
      if test entry.1 && entry.2.awaits stamp then some (ackedFact stamp kind entry) else none := by
  rw [fact?, coverWhere]
  cases entry.2.awaits stamp <;> cases test entry.1 <;> rfl

theorem ackCovered_of_nowhere (nowhere : ∀ place, test place = false) :
    h.ackCovered (coverWhere test kind) stamp = (h, []) := by
  have unreported (entry : Nat × Record) : fact? (coverWhere test kind) stamp entry = none := by
    rw [fact?_coverWhere, nowhere]
    rfl
  have same : h.records.map (ackReported (coverWhere test kind) stamp) = h.records := by
    refine List.map_id'' (fun entry => ?_) h.records
    rw [ackReported, unreported]
    rfl
  rw [ackCovered, same, List.filterMap_eq_nil_iff.mpr fun entry _ => unreported entry]

theorem ackCovered_of_between {low high : Nat}
    (between : ∀ place, test place = (decide (low ≤ place) && decide (place ≤ high))) :
    h.ackCovered (coverWhere test kind) stamp = h.acknowledge low high stamp kind := by
  have reported (entry : Nat × Record) : fact? (coverWhere test kind) stamp entry =
      if covers low high stamp entry then some (ackedFact stamp kind entry) else none := by
    rw [fact?_coverWhere, between, covers]
  have acked (entry : Nat × Record) :
      ackReported (coverWhere test kind) stamp entry = ackEntry low high stamp entry := by
    rw [ackReported, reported, ackEntry]
    cases covers low high stamp entry <;> rfl
  have facts : (h.records.filter (covers low high stamp)).map (ackedFact stamp kind) =
      h.records.filterMap fun entry =>
        if covers low high stamp entry then some (ackedFact stamp kind entry) else none := by
    rw [← List.filterMap_eq_map, List.filterMap_filter]
    rfl
  rw [acknowledge, ackCovered, funext acked, funext reported, facts]

theorem toList_fact?_or : (fact? cover stamp entry).toList ++
      (fact? later stamp (ackReported cover stamp entry)).toList =
    (fact? (fun place => (cover place).or (later place)) stamp entry).toList := by
  cases waits : entry.2.awaits stamp <;> cases here : cover entry.1 <;>
    simp [ackReported, fact?, waits, here, awaits_acknowledged]

theorem ackReported_or : ackReported later stamp (ackReported cover stamp entry) =
    ackReported (fun place => (cover place).or (later place)) stamp entry := by
  cases waits : entry.2.awaits stamp <;> cases here : cover entry.1 <;>
    simp [ackReported, fact?, waits, here, awaits_acknowledged]

/-- What two passes do one after the other, one pass does with the kinds of the first one where both
cover a record. -/
theorem alike_ackCovered_or {one two : Half × List Acked}
    (first : Alike one (h.ackCovered cover stamp))
    (second : Alike two (one.1.ackCovered later stamp)) :
    Alike (two.1, one.2 ++ two.2)
      (h.ackCovered (fun place => (cover place).or (later place)) stamp) := by
  rw [first.half] at second
  refine ⟨?_, (first.acked.append second.acked).trans ?_⟩
  · rw [second.half]
    simp only [ackCovered, List.map_map, Function.comp_def, ackReported_or]
  · simp only [ackCovered, List.filterMap_eq_flatMap_toList, List.flatMap_map, ← toList_fact?_or]
    exact List.flatMap_append_perm _ _ _

/- The gap blocks of a list. -/

theorem gapAck_eq_ackCovered (block : GapBlock) : h.gapAck limits cumulative block stamp kind =
    h.ackCovered (coverWhere (reaches limits h.baseline cumulative · block) kind) stamp := by
  cases based : h.baseline with
  | none =>
    rw [gapAck, relative?, based]
    exact (ite_self _).trans (ackCovered_of_nowhere fun _ => rfl).symm
  | some first =>
    rw [gapAck, relative?_eq based]
    by_cases valid : block.start ≤ block.stop
    · rw [if_neg (UInt16.not_lt.mpr valid)]
      dsimp only
      split
      · refine (ackCovered_of_nowhere fun place => ?_).symm
        simp only [reaches, valid]
        grind
      · refine (ackCovered_of_between fun place => ?_).symm
        simp only [reaches, valid]
        grind
    · rw [if_pos (UInt16.not_le.mp valid)]
      exact (ackCovered_of_nowhere fun place => by simp [reaches, valid]).symm

theorem coverWhere_or (other : Nat → Bool) :
    (fun place => (coverWhere test kind place).or (coverWhere other kind place)) =
      coverWhere (fun place => test place || other place) kind := by
  funext place
  rw [coverWhere, coverWhere, coverWhere]
  cases test place <;> simp

theorem alike_gapAcks (h : Half) (limits : AckLimits) (cumulative : UInt32) (stamp : Stamp)
    (kind : AckKind) (blocks : List GapBlock) :
    Alike (gapAcks limits cumulative stamp kind h blocks)
      (h.ackCovered
        (coverWhere (fun place => blocks.any (reaches limits h.baseline cumulative place)) kind)
        stamp) := by
  induction blocks generalizing h with
  | nil => exact .of_eq (ackCovered_of_nowhere fun _ => rfl).symm
  | cons block rest ih =>
    have kept : (h.gapAck limits cumulative block stamp kind).1.baseline = h.baseline :=
      (acknowledges_gapAck cumulative block kind).others.2.1
    have later := ih (h.gapAck limits cumulative block stamp kind).1
    rw [kept] at later
    have whole := alike_ackCovered_or (.of_eq (gapAck_eq_ackCovered block)) later
    rw [coverWhere_or] at whole
    exact whole

/- The whole SACK. -/

theorem cumulativeAck_eq_ackCovered (h : Half) (limits : AckLimits) (cumulative : UInt32)
    (stamp : Stamp) : h.cumulativeAck limits cumulative stamp =
      ({ h with cumulative := (h.cumulativeAck limits cumulative stamp).1.cumulative }).ackCovered
        (coverWhere (h.pointReaches limits cumulative) .cumulative) stamp := by
  rw [cumulativeAck]
  cases known : h.relative? cumulative with
  | none => exact (ackCovered_of_nowhere fun place => by simp [pointReaches, known]).symm
  | some relative =>
    dsimp only
    split
    · rename_i behind
      refine (ackCovered_of_nowhere fun place => ?_).symm
      simp [pointReaches, known, Nat.not_lt.mpr behind]
    · rename_i ahead
      split
      · rename_i far
        refine (ackCovered_of_nowhere fun place => ?_).symm
        simp [pointReaches, known, Nat.not_le.mpr far]
      · rename_i near
        refine (ackCovered_of_between fun place => ?_).symm
        simp [pointReaches, known, Nat.not_le.mp ahead, Nat.not_lt.mp near]

/- A record that several ranges cover waits only for the first of them, so the kinds combine in the
order of the passes and nothing else of that order is left. -/
theorem alike_applySack (h : Half) (limits : AckLimits) (c : SackChunk) (stamp : Stamp) :
    Alike (h.applySack limits c stamp)
      (({ h with cumulative :=
          (h.cumulativeAck limits c.cumulative stamp).1.cumulative }).ackCovered
        (h.sackCover limits c) stamp) := by
  let point := h.cumulativeAck limits c.cumulative stamp
  let gaps := gapAcks limits c.cumulative stamp .gap point.1 c.gaps
  have based : point.1.baseline = h.baseline :=
    (acknowledges_cumulativeAck h limits stamp c.cumulative).others.2.1
  have still : gaps.1.baseline = h.baseline :=
    (acknowledges_gapAcks c.cumulative .gap c.gaps).others.2.1.trans based
  have byPoint := Alike.of_eq (cumulativeAck_eq_ackCovered h limits c.cumulative stamp)
  have byGap := alike_gapAcks point.1 limits c.cumulative stamp .gap c.gaps
  have byKept := alike_gapAcks gaps.1 limits c.cumulative stamp .nonRenegableGap c.nonRenegableGaps
  rw [based] at byGap
  rw [still] at byKept
  exact alike_ackCovered_or (alike_ackCovered_or byPoint byGap) byKept

/- What is reported. -/

theorem Acknowledges.reports_iff {facts : List Acked}
    (acknowledges : Acknowledges stamp h facts after) (ascending : h.records.Ascending)
    (place : Nat) :
    (∃ a ∈ facts, a.relative = place) ↔ after.ack? place ≠ h.ack? place := by
  have count : (facts.filter fun a => a.relative == place).length +
      (if (h.ack? place).isSome then 1 else 0) = if (after.ack? place).isSome then 1 else 0 :=
    acknowledges.reported ascending
  have there : (∃ a ∈ facts, a.relative = place) ↔
      0 < (facts.filter fun a => a.relative == place).length := by
    simp [List.length_pos_iff_exists_mem]
  rw [there]
  constructor
  · intro reported unchanged
    rw [unchanged] at count
    omega
  · intro changed
    cases known : h.ack? place with
    | none =>
      have isSome : (after.ack? place).isSome = true := by
        rw [Option.isSome_iff_ne_none, ← known]
        exact changed
      rw [known, isSome] at count
      exact Nat.lt_of_lt_of_eq Nat.one_pos count.symm
    | some ack => exact absurd ((acknowledges.ack?_eq_some known).trans known.symm) changed

theorem Reachable.nodup_tsns (reachable : h.Reachable limits cap) :
    (h.records.map fun entry => entry.2.tsn).Nodup := by
  cases based : h.baseline with
  | none =>
    obtain ⟨history, recorded⟩ := reachable.recorded
    rw [recorded.founded based]
    exact List.nodup_nil
  | some first =>
    refine List.Nodup.of_map (Serial.distance first) ?_
    have places : (h.records.map fun entry => entry.2.tsn).map (Serial.distance first) =
        h.records.keys := by
      rw [List.map_map]
      refine List.map_congr_left fun entry there => ?_
      exact (reachable.place based there).symm
    rw [places]
    exact reachable.ascending.nodup

theorem nodup_ackCovered (distinct : (h.records.map fun entry => entry.2.tsn).Nodup) :
    ((h.ackCovered cover stamp).2.map (·.tsn)).Nodup := by
  rw [ackCovered, List.Nodup, List.pairwise_map, List.pairwise_filterMap]
  refine (List.pairwise_map.mp distinct).imp ?_
  intro entry other apart a here b there
  obtain ⟨-, kind, -, rfl⟩ := fact?_eq_some_iff.mp here
  obtain ⟨-, kind', -, rfl⟩ := fact?_eq_some_iff.mp there
  exact apart

theorem shown_ackCovered (distinct : (h.ackCovered cover stamp).1.records.keys.Nodup)
    (there : a ∈ (h.ackCovered cover stamp).2) :
    ∃ r, Keyed.get? a.relative (h.ackCovered cover stamp).1.records = some r ∧
      r.ack = some stamp ∧ a = ⟨r.tsn, a.relative, r.first.frame, r.roundTrip?, a.kind⟩ := by
  obtain ⟨entry, member, reported⟩ := List.mem_filterMap.mp there
  have after : ackReported cover stamp entry = (entry.1, entry.2.acknowledged stamp) := by
    rw [ackReported, reported]
    rfl
  have now := Keyed.get?_of_mem distinct (List.mem_map_of_mem member)
  rw [after] at now
  obtain ⟨-, kind, -, rfl⟩ := fact?_eq_some_iff.mp reported
  exact ⟨_, now, rfl, rfl⟩

theorem reportsChanges_sack (reachable : h.Reachable before cap) (limits : AckLimits)
    (c : SackChunk) (nonRenegable : Bool) (stamp : Stamp) :
    ReportsChanges h stamp (h.sack limits c nonRenegable stamp) := by
  have acknowledges := acknowledges_sack h limits stamp c nonRenegable
  have ascending : (h.sack limits c nonRenegable stamp).1.records.Ascending :=
    acknowledges.ascending reachable.ascending
  have alike : Alike ((h.sack limits c nonRenegable stamp).1,
    (h.sack limits c nonRenegable stamp).2.acked) _ := alike_applySack h limits c stamp
  refine ⟨?_, acknowledges.reports_iff reachable.ascending, ?_⟩
  · exact (alike.acked.map _).nodup_iff.mpr (nodup_ackCovered reachable.nodup_tsns)
  · intro a there
    rw [alike.half] at ascending ⊢
    exact shown_ackCovered ascending.nodup (alike.acked.mem_iff.mp there)

/- The order of the blocks. -/

variable {gaps kept : List GapBlock} {c : SackChunk}

theorem sackCover_of_perm (h : Half) (limits : AckLimits) (sameGaps : gaps.Perm c.gaps)
    (sameKept : kept.Perm c.nonRenegableGaps) :
    h.sackCover limits { c with gaps := gaps, nonRenegableGaps := kept } =
      h.sackCover limits c := by
  funext place
  simp only [sackCover, coverWhere, sameGaps.any_eq, sameKept.any_eq]

theorem gapAckedCount_of_perm (sameGaps : gaps.Perm c.gaps) :
    gapAckedCount gaps = gapAckedCount c.gaps := by
  simp only [gapAckedCount, ← List.sum_eq_foldl]
  exact ((sameGaps.filter _).map _).sum_nat

/-- A SACK reports the records that it acknowledges, and with its gap blocks in another order it
acknowledges the same records in the same way. -/
theorem sack_of_permuted (reachable : h.Reachable before cap) (limits : AckLimits) (c : SackChunk)
    (nonRenegable : Bool) (stamp : Stamp) :
    ReportsChanges h stamp (h.sack limits c nonRenegable stamp) ∧
      ∀ gaps kept : List GapBlock, gaps.Perm c.gaps → kept.Perm c.nonRenegableGaps →
        SameFindings
          (h.sack limits { c with gaps := gaps, nonRenegableGaps := kept } nonRenegable stamp)
          (h.sack limits c nonRenegable stamp) := by
  refine ⟨reportsChanges_sack reachable limits c nonRenegable stamp, ?_⟩
  intro gaps kept sameGaps sameKept
  have count := gapAckedCount_of_perm sameGaps
  have permuted := alike_applySack h limits { c with gaps := gaps, nonRenegableGaps := kept } stamp
  rw [sackCover_of_perm h limits sameGaps sameKept] at permuted
  refine ⟨permuted.trans (alike_applySack h limits c stamp).symm, count, ?_⟩
  simp only [sack, sackFacts, count]

def sixSent : Half :=
  (new ⟨0, .forward⟩).follow ⟨5000, 100⟩ 100
    [.transmit 10 ⟨1, ⟨1, 0⟩⟩, .transmit 11 ⟨2, ⟨2, 0⟩⟩, .transmit 12 ⟨3, ⟨3, 0⟩⟩,
      .transmit 13 ⟨4, ⟨4, 0⟩⟩, .transmit 14 ⟨5, ⟨5, 0⟩⟩, .transmit 15 ⟨6, ⟨6, 0⟩⟩]

/-- Gap blocks that overlap in both lists, one of them malformed and one too long. -/
def tangled : SackChunk :=
  ⟨10, 1500, [⟨2, 3⟩, ⟨3, 4⟩, ⟨5, 4⟩, ⟨1, 60000⟩], [⟨4, 5⟩, ⟨3, 3⟩], []⟩

def backwards : SackChunk :=
  { tangled with
    gaps := tangled.gaps.reverse, nonRenegableGaps := tangled.nonRenegableGaps.reverse }

theorem sack_of_permuted_backwards :
    sixSent.Reachable ⟨5000, 100⟩ 100 ∧
      ReportsChanges sixSent ⟨7, ⟨7, 0⟩⟩ (sixSent.sack ⟨4, 3⟩ tangled true ⟨7, ⟨7, 0⟩⟩) ∧
      SameFindings (sixSent.sack ⟨4, 3⟩ backwards true ⟨7, ⟨7, 0⟩⟩)
        (sixSent.sack ⟨4, 3⟩ tangled true ⟨7, ⟨7, 0⟩⟩) ∧
      (sixSent.sack ⟨4, 3⟩ tangled true ⟨7, ⟨7, 0⟩⟩).2.acked.map (·.tsn) =
        [10, 12, 13, 14, 15] ∧
      (sixSent.sack ⟨4, 3⟩ backwards true ⟨7, ⟨7, 0⟩⟩).2.acked.map (·.tsn) =
        [10, 13, 14, 12, 15] := by
  have reachable : sixSent.Reachable ⟨5000, 100⟩ 100 := reachable_follow _ _
  obtain ⟨reports, same⟩ := sack_of_permuted reachable ⟨4, 3⟩ tangled true ⟨7, ⟨7, 0⟩⟩
  exact ⟨reachable, reports, same _ _ (List.reverse_perm _) (List.reverse_perm _), by decide,
    by decide⟩

end Half

end SctpTrace.Transmission
