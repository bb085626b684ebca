import SctpTrace.Proofs.Transmission.Ahead

/-!
The TSNs that a gap block names: those from one offset behind the cumulative TSN to another one,
modulo 2^32 (`names_iff`). Records are found by their distance from the baseline. Where that
distance does not pass 2^32 on the way to the end of the block, the block acknowledges what it
names; otherwise it acknowledges nothing (`gapAck_of_reachable`). The way is too long for every
block that comes with the TSN before the baseline (`gapAck_before_baseline`).
-/
namespace SctpTrace.Transmission.Half

open Serial

def names (cumulative : UInt32) (block : Wire.GapBlock) (tsn : UInt32) : Bool :=
  onArc (forward cumulative block.start.toNat) (forward cumulative block.stop.toNat) tsn

/-- Acknowledges the records whose TSN the block names, if they wait for an ack and were sent
before. -/
def ackNamed (h : Half) (cumulative : UInt32) (block : Wire.GapBlock) (stamp : Stamp)
    (kind : AckKind) : Half × List Acked :=
  let named (entry : Nat × Record) := names cumulative block entry.2.tsn && entry.2.awaits stamp
  ({ h with records := h.records.map fun entry =>
      if named entry then (entry.1, entry.2.acknowledged stamp) else entry },
    (h.records.filter named).map (ackedFact stamp kind))

variable {h : Half} {limits : AckLimits} {cap : Nat} {first cumulative tsn : UInt32}
  {block : Wire.GapBlock} {stamp : Stamp} {kind : AckKind}

theorem names_iff (valid : block.start ≤ block.stop) :
    names cumulative block tsn = true ↔
      ∃ offset, block.start.toNat ≤ offset ∧ offset ≤ block.stop.toNat ∧
        tsn = forward cumulative offset := by
  have ordered := UInt16.le_iff_toNat_le.mp valid
  have bound := block.stop.toNat_lt
  have length : distance (forward cumulative block.start.toNat)
      (forward cumulative block.stop.toNat) = block.stop.toNat - block.start.toNat := by
    rw [distance_forward_forward ordered (by omega)]
  rw [names, onArc_iff, length]
  constructor
  · intro near
    refine ⟨block.start.toNat + distance (forward cumulative block.start.toNat) tsn, by omega,
      by omega, ?_⟩
    rw [← forward_add, forward_distance]
  · rintro ⟨offset, low, high, rfl⟩
    rw [distance_forward_forward low (by omega)]
    omega

theorem names_eq_decide (valid : block.start ≤ block.stop)
    (near : distance first cumulative + block.stop.toNat < 4294967296) :
    names cumulative block tsn =
      (decide (distance first cumulative + block.start.toNat ≤ distance first tsn) &&
        decide (distance first tsn ≤ distance first cumulative + block.stop.toNat)) := by
  rw [Bool.eq_iff_iff, names_iff valid, Bool.and_eq_true, decide_eq_true_eq, decide_eq_true_eq]
  constructor
  · rintro ⟨offset, low, high, rfl⟩
    rw [distance_forward_add first cumulative offset (by omega)]
    omega
  · rintro ⟨low, high⟩
    refine ⟨distance first tsn - distance first cumulative, by omega, by omega, ?_⟩
    have place : distance first
        (forward cumulative (distance first tsn - distance first cumulative)) =
          distance first tsn := by
      rw [distance_forward_add first cumulative _ (by omega)]
      omega
    exact (distance_inj place).symm

theorem Reachable.place (reachable : h.Reachable limits cap) (based : h.baseline = some first)
    {entry : Nat × Record} (there : entry ∈ h.records) : entry.1 = distance first entry.2.tsn := by
  obtain ⟨history, recorded⟩ := reachable.recorded
  have found := Keyed.get?_of_mem reachable.ascending.nodup there
  obtain ⟨start, is, place⟩ := recorded.placed entry.1 entry.2 found
  rw [based, Option.some.injEq] at is
  rw [is, place]

theorem Reachable.acknowledge_eq (reachable : h.Reachable limits cap)
    (based : h.baseline = some first) (valid : block.start ≤ block.stop)
    (near : distance first cumulative + block.stop.toNat < 4294967296) :
    h.acknowledge (distance first cumulative + block.start.toNat)
        (distance first cumulative + block.stop.toNat) stamp kind =
      h.ackNamed cumulative block stamp kind := by
  have same : ∀ entry ∈ h.records,
      covers (distance first cumulative + block.start.toNat)
          (distance first cumulative + block.stop.toNat) stamp entry =
        (names cumulative block entry.2.tsn && entry.2.awaits stamp) := by
    intro entry there
    rw [covers, reachable.place based there, names_eq_decide valid near]
  have acked : h.records.map (ackEntry (distance first cumulative + block.start.toNat)
        (distance first cumulative + block.stop.toNat) stamp) =
      h.records.map fun entry => if names cumulative block entry.2.tsn && entry.2.awaits stamp then
        (entry.1, entry.2.acknowledged stamp) else entry := by
    refine List.map_congr_left fun entry there => ?_
    rw [ackEntry, same entry there]
  rw [acknowledge, ackNamed, acked, List.filter_congr same]

theorem gapAck_of_far (based : h.baseline = some first)
    (far : 4294967296 ≤ distance first cumulative + block.stop.toNat) :
    h.gapAck limits cumulative block stamp kind = (h, []) := by
  rw [gapAck, relative?_eq based]
  simp only [far, true_or, ↓reduceIte, ite_self]

/-- Among those are all blocks that come with the TSN before the baseline, as they do when the first
data chunk is lost. -/
theorem gapAck_before_baseline (based : h.baseline = some first) (ahead : 1 ≤ block.stop) :
    h.gapAck limits (first - 1) block stamp kind = (h, []) := by
  have last : distance first (first - 1) = 4294967295 := by
    have back : first - 1 - first = 4294967295 := by grind
    rw [distance, back]
    rfl
  have positive := UInt16.le_iff_toNat_le.mp ahead
  apply gapAck_of_far based
  rw [last]
  change 1 ≤ block.stop.toNat at positive
  omega

/-- A block acknowledges all that it names or, where its end lies a turn or more from the baseline,
nothing. -/
theorem gapAck_of_reachable (reachable : h.Reachable limits cap) (based : h.baseline = some first)
    (valid : block.start ≤ block.stop)
    (short : block.stop.toNat - block.start.toNat < limits.span) :
    h.gapAck limits cumulative block stamp kind =
      if distance first cumulative + block.stop.toNat < 4294967296 then
        h.ackNamed cumulative block stamp kind
      else (h, []) := by
  by_cases near : distance first cumulative + block.stop.toNat < 4294967296
  · have length : distance first cumulative + block.stop.toNat -
        (distance first cumulative + block.start.toNat) =
          block.stop.toNat - block.start.toNat := Nat.add_sub_add_left ..
    have allowed : ¬ (4294967296 ≤ distance first cumulative + block.stop.toNat ∨
        limits.span ≤ block.stop.toNat - block.start.toNat) := by omega
    rw [if_pos near, gapAck, if_neg (UInt16.not_lt.mpr valid), relative?_eq based]
    simp only [length, allowed, ↓reduceIte]
    exact reachable.acknowledge_eq based valid near
  · rw [if_neg near]
    exact gapAck_of_far based (Nat.not_lt.mp near)

theorem gapAck_of_reachable_over_the_wrap :
    aroundTheWrap.Reachable ⟨5000, 100⟩ 100 ∧ aroundTheWrap.baseline = some 4294967295 ∧
      aroundTheWrap.gapAck ⟨5000, 100⟩ 4294967295 ⟨1, 2⟩ ⟨5, ⟨5, 0⟩⟩ .gap =
        aroundTheWrap.ackNamed 4294967295 ⟨1, 2⟩ ⟨5, ⟨5, 0⟩⟩ .gap := by
  have reachable : aroundTheWrap.Reachable ⟨5000, 100⟩ 100 := reachable_follow _ _
  have based : aroundTheWrap.baseline = some 4294967295 := by decide
  exact ⟨reachable, based,
    (gapAck_of_reachable reachable based (by decide) (by decide)).trans (if_pos (by decide))⟩

def firstLost : Half :=
  (new ⟨0, .forward⟩).follow ⟨5000, 100⟩ 100
    [.transmit 10 ⟨1, ⟨1, 0⟩⟩, .transmit 11 ⟨2, ⟨2, 0⟩⟩]

/-- The receiver asks for the first TSN and names the second one, which stays unacknowledged. -/
theorem gapAck_misses_named :
    ¬ ∀ (limits : AckLimits) (cap : Nat) (h : Half), h.Reachable limits cap →
      ∀ first : UInt32, h.baseline = some first →
        ∀ (cumulative : UInt32) (block : Wire.GapBlock) (stamp : Stamp) (kind : AckKind),
          block.start ≤ block.stop → block.stop.toNat - block.start.toNat < limits.span →
            h.gapAck limits cumulative block stamp kind =
              h.ackNamed cumulative block stamp kind := by
  intro always
  have whole := always ⟨5000, 100⟩ 100 firstLost (reachable_follow _ _) 10 (by decide) 9 ⟨2, 2⟩
    ⟨3, ⟨3, 0⟩⟩ .gap (by decide) (by decide)
  revert whole
  decide

end SctpTrace.Transmission.Half
