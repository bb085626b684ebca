import SctpTrace.Proofs.Transmission.Flows

/-!
What the steps of a half count: the records that hold an acknowledgement, and the retransmissions
over all records. A SACK reports each record that it acknowledges, once (`count_sack`).
-/
namespace SctpTrace.Transmission

def Record.held (r : Record) : Nat := if r.ack.isSome then 1 else 0

namespace Half

def ack? (h : Half) (relative : Nat) : Option Stamp :=
  (Keyed.get? relative h.records).bind (·.ack)

def heldCount (h : Half) : Nat := h.records.countP fun e => e.2.ack.isSome

def retransmissionCount (h : Half) : Nat := (h.records.map fun e => e.2.retransmissionCount).sum

variable {h after : Half} {tsn : UInt32} {stamp : Stamp} {cap : Nat} {limits : AckLimits}
  {facts : List Acked} {relative low high : Nat}

theorem heldCount_eq (h : Half) : h.heldCount = (h.records.map fun e => e.2.held).sum := by
  rw [heldCount]
  induction h.records with
  | nil => rfl
  | cons entry rest ih =>
    rw [List.countP_cons, ih, List.map_cons, List.sum_cons, Record.held, Nat.add_comm]

theorem held_resent (r : Record) : (r.resent stamp cap).held = r.held := by
  unfold Record.resent
  split <;> rfl

theorem retransmissionCount_resent (r : Record) :
    (r.resent stamp cap).retransmissionCount =
      r.retransmissionCount + (r.retransmission stamp cap).tally.retransmissions := by
  simp only [Record.resent, Record.retransmission, Retransmission.tally]
  split
  · rename_i counted
    simp [counted]
  · rename_i uncounted
    simp [uncounted]

theorem count_transmit (tsn : UInt32) (stamp : Stamp) (cap : Nat) (ascending : h.records.Ascending) :
    (h.transmit tsn stamp cap).1.heldCount = h.heldCount ∧
      (h.transmit tsn stamp cap).1.retransmissionCount =
        h.retransmissionCount + (h.transmit tsn stamp cap).2.tally.retransmissions := by
  have held := fun r => Keyed.sum_insertOrdered Record.held
    (Serial.distance (h.baseline.getD tsn) tsn) r ascending
  have count := fun r => Keyed.sum_insertOrdered Record.retransmissionCount
    (Serial.distance (h.baseline.getD tsn) tsn) r ascending
  simp only [transmit, recordAt, heldCount_eq, retransmissionCount]
  cases known : Keyed.get? (Serial.distance (h.baseline.getD tsn) tsn) h.records with
  | none =>
    have noneHeld := held (.sent tsn stamp)
    have noneCounted := count (.sent tsn stamp)
    rw [known] at noneHeld noneCounted
    exact ⟨noneHeld, noneCounted⟩
  | some r =>
    simp only
    split
    · exact ⟨rfl, rfl⟩
    · have sameHeld := held (r.resent stamp cap)
      have counted := count (r.resent stamp cap)
      rw [known, Option.map_some, Option.getD_some] at sameHeld counted
      rw [held_resent] at sameHeld
      rw [retransmissionCount_resent] at counted
      simp only [Outcome.tally]
      constructor <;> omega

theorem ack?_transmit : (h.transmit tsn stamp cap).1.ack? relative = h.ack? relative := by
  simp only [ack?, transmit, recordAt]
  cases known : Keyed.get? (Serial.distance (h.baseline.getD tsn) tsn) h.records with
  | none =>
    simp only [Keyed.get?_insertOrdered]
    split
    · rename_i same
      rw [← same, known]
      rfl
    · rfl
  | some r =>
    simp only
    split
    · rfl
    · rw [Keyed.get?_insertOrdered]
      split
      · rename_i same
        rw [← same, known, Option.bind_some, Option.bind_some, Record.resent]
        split <;> rfl
      · rfl

/- Acknowledging a range. -/

theorem held_ackEntry (entry : Nat × Record) :
    (ackEntry low high stamp entry).2.held =
      entry.2.held + if covers low high stamp entry then 1 else 0 := by
  unfold ackEntry
  split
  · rename_i covered
    have awaited : entry.2.ack = none := by
      simp only [covers, Record.awaits, Bool.and_eq_true, Option.isNone_iff_eq_none] at covered
      exact covered.2.1
    simp [Record.held, Record.acknowledged, awaited]
  · rfl

theorem count_acknowledge (stamp : Stamp) (low high : Nat) (entries : Keyed Nat Record) :
    ((entries.map (ackEntry low high stamp)).map fun e => e.2.held).sum =
        (entries.map fun e => e.2.held).sum +
          (entries.filter (covers low high stamp)).length ∧
      ((entries.map (ackEntry low high stamp)).map fun e => e.2.retransmissionCount).sum =
        (entries.map fun e => e.2.retransmissionCount).sum := by
  induction entries with
  | nil => exact ⟨rfl, rfl⟩
  | cons entry rest ih =>
    have kept : (ackEntry low high stamp entry).2.retransmissionCount =
        entry.2.retransmissionCount := by
      unfold ackEntry
      split <;> rfl
    simp only [List.map_cons, List.sum_cons, held_ackEntry, kept, List.filter_cons]
    split
    · simp only [List.length_cons]
      omega
    · omega

theorem get?_ackEntry (entries : Keyed Nat Record) :
    Keyed.get? relative (entries.map (ackEntry low high stamp)) =
      (Keyed.get? relative entries).map
        fun r => (ackEntry low high stamp (relative, r)).2 := by
  induction entries with
  | nil => rfl
  | cons entry rest ih =>
    rw [List.map_cons, Keyed.get?, Keyed.get?, (ackStep_ackEntry low high).relative]
    split
    · rename_i same
      subst same
      rfl
    · exact ih

theorem count_covered (stamp : Stamp) (low high : Nat) {entries : Keyed Nat Record}
    (ascending : entries.Ascending) :
    ((entries.filter (covers low high stamp)).filter fun e => e.1 == relative).length =
      ((Keyed.get? relative entries).map
        fun r => if covers low high stamp (relative, r) then 1 else 0).getD 0 := by
  induction entries with
  | nil => rfl
  | cons entry rest ih =>
    obtain ⟨k, r⟩ := entry
    simp only [Keyed.Ascending, Keyed.keys, List.map_cons, List.pairwise_cons] at ascending
    have later := ih ascending.2
    rw [Keyed.get?]
    by_cases same : k = relative
    · subst same
      rw [Keyed.get?_eq_none_of_above ascending.1] at later
      rw [if_pos rfl, List.filter_cons]
      split
      · rename_i covered
        simp [covered, List.length_eq_zero_iff.mp later]
      · rename_i uncovered
        simp [uncovered, List.length_eq_zero_iff.mp later]
    · rw [if_neg same, ← later, List.filter_cons]
      split
      · simp [same]
      · rfl

namespace Acknowledges

theorem count (acknowledges : Acknowledges stamp h facts after) :
    after.heldCount = h.heldCount + facts.length ∧
      after.retransmissionCount = h.retransmissionCount := by
  induction acknowledges with
  | nothing => exact ⟨rfl, rfl⟩
  | @range h _ _ low high _ _ ih =>
    have first := count_acknowledge stamp low high h.records
    simp only [acknowledge, heldCount_eq, retransmissionCount, List.length_append,
      List.length_map] at ih ⊢
    omega

theorem ascending (acknowledges : Acknowledges stamp h facts after)
    (before : h.records.Ascending) : after.records.Ascending := by
  rw [Keyed.Ascending, keys_ackStep acknowledges.records]
  exact before

/-- A record is reported exactly when it goes from waiting to acknowledged, and then once. -/
theorem reported (acknowledges : Acknowledges stamp h facts after)
    (ascending : h.records.Ascending) :
    (facts.filter fun a => a.relative == relative).length +
        (if (h.ack? relative).isSome then 1 else 0) =
      if (after.ack? relative).isSome then 1 else 0 := by
  induction acknowledges with
  | nothing => simp
  | @range h _ later low high kind rest ih =>
    have next := ih ((single stamp low high kind).ascending ascending)
    have named : ((h.acknowledge low high stamp kind).2.filter fun a => a.relative == relative) =
        ((h.records.filter (covers low high stamp)).filter fun e => e.1 == relative).map
          (ackedFact stamp kind) := by
      rw [acknowledge, List.filter_map]
      rfl
    rw [List.filter_append, List.length_append, named, List.length_map,
      count_covered stamp low high ascending, ← next, ack?, ack?, acknowledge,
      get?_ackEntry]
    cases Keyed.get? relative h.records with
    | none => simp
    | some r =>
      simp only [Option.map_some, Option.getD_some, Option.bind_some, ackEntry]
      split
      · rename_i covered
        simp only [covers, Record.awaits, Bool.and_eq_true, Option.isNone_iff_eq_none] at covered
        simp [covered.2.1, Record.acknowledged]
        omega
      · simp only
        omega

theorem ack?_eq_some (acknowledges : Acknowledges stamp h facts after) {ack : Stamp}
    (before : h.ack? relative = some ack) : after.ack? relative = some ack := by
  induction acknowledges with
  | nothing => exact before
  | @range h _ _ low high kind _ ih =>
    apply ih
    obtain ⟨r, found, acked⟩ := Option.bind_eq_some_iff.mp before
    rw [ack?, acknowledge, get?_ackEntry, found, Option.map_some, Option.bind_some]
    have step : AckStep stamp (relative, r) (ackEntry low high stamp (relative, r)) :=
      ackStep_ackEntry low high
    rcases step with same | ⟨awaits, -⟩
    · rw [same]
      exact acked
    · simp [Record.awaits, acked] at awaits

end Acknowledges

end Half

end SctpTrace.Transmission
