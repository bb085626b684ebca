import SctpTrace.Proofs.Keyed
import SctpTrace.Proofs.Transmission.Acknowledged
import SctpTrace.Proofs.Transmission.FirstFrame

/-!
The cumulative point of a half. As long as it does not move by more than an ack may cover, and new
TSNs lie above it, every record that it has reached is acknowledged (`acked_up_to_point`).
-/
namespace SctpTrace.Transmission

inductive HalfEvent where
  | announce (tsn : UInt32)
  | transmit (tsn : UInt32) (stamp : Stamp)
  | sack (chunk : Wire.SackChunk) (nonRenegable : Bool) (stamp : Stamp)
  deriving DecidableEq, Repr

namespace HalfEvent

def sentIn? : HalfEvent → Option FrameNumber
  | transmit _ stamp => some stamp.frame
  | _ => none

def ackedIn? : HalfEvent → Option FrameNumber
  | sack _ _ stamp => some stamp.frame
  | _ => none

def frame? (e : HalfEvent) : Option FrameNumber := e.sentIn?.or e.ackedIn?

end HalfEvent

/-- Frames never go back, and no frame both carries data of the half and acknowledges it. -/
structure Orderly (events : List HalfEvent) : Prop where
  ordered : (events.filterMap HalfEvent.frame?).Pairwise (· ≤ ·)
  apart : ∀ frame ∈ events.filterMap HalfEvent.sentIn?,
    frame ∉ events.filterMap HalfEvent.ackedIn?

theorem Orderly.of_prefix {events before : List HalfEvent} (orderly : Orderly events)
    (part : before <+: events) : Orderly before := by
  refine ⟨orderly.ordered.sublist (part.sublist.filterMap _), ?_⟩
  intro frame sent acked
  exact orderly.apart frame ((part.sublist.filterMap _).subset sent)
    ((part.sublist.filterMap _).subset acked)

namespace Half

def step (limits : AckLimits) (cap : Nat) (h : Half) : HalfEvent → Half
  | .announce tsn => (h.setBaseline tsn).1
  | .transmit tsn stamp => (h.transmit tsn stamp cap).1
  | .sack chunk nonRenegable stamp => (h.sack limits chunk nonRenegable stamp).1

def follow (limits : AckLimits) (cap : Nat) (h : Half) (events : List HalfEvent) : Half :=
  events.foldl (step limits cap) h

/-- How far the point moved; at first it lies just before the baseline. -/
def pointMove (before after : Half) : Nat :=
  match before.cumulative, after.cumulative with
  | some point, some reached => reached - point
  | none, some reached => reached + 1
  | _, none => 0

/-- A new TSN lies above the point, and an ack moves the point by no more than it may cover. -/
def Admits (limits : AckLimits) (h : Half) : HalfEvent → Prop
  | .announce _ => True
  | .transmit tsn _ => h.record? tsn = none →
      ∀ relative ∈ h.relative? tsn, ∀ point ∈ h.cumulative, point < relative
  | .sack chunk nonRenegable stamp =>
      h.pointMove (h.sack limits chunk nonRenegable stamp).1 ≤ limits.span

def AdmitsAll (limits : AckLimits) (cap : Nat) : Half → List HalfEvent → Prop
  | _, [] => True
  | h, e :: rest => h.Admits limits e ∧ (h.step limits cap e).AdmitsAll limits cap rest

instance (limits : AckLimits) (h : Half) (e : HalfEvent) : Decidable (h.Admits limits e) := by
  cases e <;> simp only [Admits] <;> infer_instance

instance decidableAdmitsAll (limits : AckLimits) (cap : Nat) :
    (h : Half) → (events : List HalfEvent) → Decidable (h.AdmitsAll limits cap events)
  | _, [] => inferInstanceAs (Decidable True)
  | h, e :: rest =>
    have := decidableAdmitsAll limits cap (h.step limits cap e) rest
    inferInstanceAs (Decidable (_ ∧ _))

/-- The half after some events. A record at or below the point has an acknowledgement, and every
acknowledgement comes after the first transmission. -/
structure Caught (history : List HalfEvent) (h : Half) : Prop where
  based : h.baseline = none → h.cumulative = none
  sent : ∀ entry ∈ h.records, ∃ tsn, .transmit tsn entry.2.first ∈ history
  later : ∀ entry ∈ h.records, ∀ ack ∈ entry.2.ack, entry.2.first.frame < ack.frame
  acked : ∀ entry ∈ h.records, ∀ point ∈ h.cumulative, entry.1 ≤ point →
    entry.2.ack.isSome = true

variable {h : Half} {history : List HalfEvent} {limits : AckLimits} {cap : Nat} {tsn : UInt32}
  {stamp : Stamp} {chunk : Wire.SackChunk} {nonRenegable : Bool}

theorem ack_resent (r : Record) : (r.resent stamp cap).ack = r.ack := by
  simp only [Record.resent]
  split <;> rfl

theorem records_transmit_cases {entry : Nat × Record}
    (there : entry ∈ (h.transmit tsn stamp cap).1.records) :
    entry ∈ h.records ∨ (∃ r, (entry.1, r) ∈ h.records ∧ entry.2 = r.resent stamp cap) ∨
      Keyed.get? entry.1 h.records = none ∧
        entry = (Serial.distance (h.baseline.getD tsn) tsn, .sent tsn stamp) := by
  simp only [transmit, recordAt] at there
  cases known : Keyed.get? (Serial.distance (h.baseline.getD tsn) tsn) h.records with
  | none =>
    simp only [known] at there
    rcases Keyed.mem_of_mem_insertOrdered there with rfl | old
    · exact Or.inr (Or.inr ⟨known, rfl⟩)
    · exact Or.inl old
  | some r =>
    simp only [known] at there
    split at there
    · exact Or.inl there
    · rcases Keyed.mem_of_mem_insertOrdered there with rfl | old
      · exact Or.inr (Or.inl ⟨r, Keyed.mem_of_get? known, rfl⟩)
      · exact Or.inl old

theorem mem_records_transmit {entry : Nat × Record}
    (there : entry ∈ (h.transmit tsn stamp cap).1.records) :
    (∃ r, (entry.1, r) ∈ h.records ∧ entry.2.first = r.first ∧ entry.2.ack = r.ack) ∨
      Keyed.get? entry.1 h.records = none ∧
        entry = (Serial.distance (h.baseline.getD tsn) tsn, .sent tsn stamp) := by
  rcases records_transmit_cases there with old | ⟨r, old, again⟩ | new
  · exact Or.inl ⟨entry.2, old, rfl, rfl⟩
  · rw [again]
    exact Or.inl ⟨r, old, firstFrame?_resent r, ack_resent r⟩
  · exact Or.inr new

theorem transmit_fields (h : Half) (tsn : UInt32) (stamp : Stamp) (cap : Nat) :
    (h.transmit tsn stamp cap).1.baseline = some (h.baseline.getD tsn) ∧
    (h.transmit tsn stamp cap).1.cumulative = h.cumulative := by
  simp only [transmit, recordAt]
  split
  · exact ⟨rfl, rfl⟩
  · split <;> exact ⟨rfl, rfl⟩

theorem Caught.announce (caught : h.Caught history) :
    (h.setBaseline tsn).1.Caught (history ++ [.announce tsn]) := by
  have sent : ∀ entry ∈ h.records, ∃ t, .transmit t entry.2.first ∈ history ++ [.announce tsn] := by
    intro entry there
    obtain ⟨t, before⟩ := caught.sent entry there
    exact ⟨t, List.mem_append_left _ before⟩
  unfold setBaseline
  split
  · exact ⟨caught.based, sent, caught.later, caught.acked⟩
  · refine ⟨?_, sent, caught.later, caught.acked⟩
    intro absent
    cases absent

theorem Caught.transmit (caught : h.Caught history)
    (admitted : h.Admits limits (.transmit tsn stamp)) :
    (h.transmit tsn stamp cap).1.Caught (history ++ [.transmit tsn stamp]) := by
  obtain ⟨baseline, cumulative⟩ := transmit_fields h tsn stamp cap
  refine ⟨?_, ?_, ?_, ?_⟩
  · rw [baseline]
    intro absent
    cases absent
  · intro entry there
    rcases mem_records_transmit there with ⟨r, old, first, -⟩ | ⟨-, rfl⟩
    · obtain ⟨t, before⟩ := caught.sent _ old
      exact ⟨t, List.mem_append_left _ (first ▸ before)⟩
    · exact ⟨tsn, List.mem_append_right _ List.mem_cons_self⟩
  · intro entry there ack acked
    rcases mem_records_transmit there with ⟨r, old, first, same⟩ | ⟨-, rfl⟩
    · rw [first]
      exact caught.later _ old ack (same ▸ acked)
    · cases acked
  · intro entry there point reached below
    rw [cumulative] at reached
    rcases mem_records_transmit there with ⟨r, old, -, same⟩ | ⟨absent, rfl⟩
    · rw [same]
      exact caught.acked _ old point reached below
    · -- A new record at or below the point is what the event does not admit.
      exfalso
      cases based : h.baseline with
      | none =>
        rw [caught.based based] at reached
        cases reached
      | some first =>
        rw [based] at absent below
        have place : h.relative? tsn = some (Serial.distance first tsn) := by
          rw [relative?, based]
          rfl
        have unknown : h.record? tsn = none := by
          rw [record?, place]
          exact absent
        have above := admitted unknown _ place point reached
        simp only [Option.getD_some] at below
        omega

/-- The cumulative ack acknowledges what it adds to the point, if that is no more than it may
cover and all of it was sent before. -/
theorem acked_cumulativeAck {cumulative : UInt32} (spanned : 0 < limits.span)
    (admitted : h.pointMove (h.cumulativeAck limits cumulative stamp).1 ≤ limits.span)
    (before : ∀ entry ∈ h.records, entry.2.first.frame < stamp.frame)
    (acked : ∀ entry ∈ h.records, ∀ point ∈ h.cumulative, entry.1 ≤ point →
      entry.2.ack.isSome = true) :
    ∀ entry ∈ (h.cumulativeAck limits cumulative stamp).1.records,
      ∀ point ∈ (h.cumulativeAck limits cumulative stamp).1.cumulative, entry.1 ≤ point →
        entry.2.ack.isSome = true := by
  revert admitted
  unfold cumulativeAck
  split
  · exact fun _ => acked
  rename_i relative place
  split
  · exact fun _ => acked
  dsimp only
  split
  · rename_i tooFar
    intro admitted
    exfalso
    -- The point would move by the advance, which is more than the limit.
    simp only [advance] at tooFar
    simp only [pointMove] at admitted
    cases here : h.cumulative <;> simp only [here, Option.getD_none, Option.getD_some] at * <;> omega
  · rename_i near
    rintro - entry' there point reached below
    simp only [acknowledge, List.mem_map] at there
    obtain ⟨entry, old, rfl⟩ := there
    have step : AckStep stamp entry
        (ackEntry (relative - (limits.span - 1)) relative stamp entry) := ackStep_ackEntry _ _
    rw [step.relative] at below
    by_cases passed : ∃ past ∈ h.cumulative, entry.1 ≤ past
    · obtain ⟨past, known, underPast⟩ := passed
      exact step.isSome (acked entry old past known underPast)
    · have within : relative - (limits.span - 1) ≤ entry.1 ∧ entry.1 ≤ relative := by
        simp only [advance] at near
        simp only [acknowledge, Option.mem_def, Option.some.injEq] at reached
        cases here : h.cumulative with
        | none =>
          simp only [here, Option.getD_none] at near reached
          omega
        | some past =>
          have above : past < entry.1 := by
            by_contra under
            exact passed ⟨past, here, by omega⟩
          simp only [here, Option.getD_some] at near reached
          omega
      cases known : entry.2.ack with
      | some ack => exact step.isSome (by rw [known]; rfl)
      | none =>
        have covered : covers (relative - (limits.span - 1)) relative stamp entry = true := by
          simp [covers, within, Record.awaits, known, before entry old]
        rw [ackEntry, if_pos covered]
        rfl

theorem Caught.sack (spanned : 0 < limits.span) (caught : h.Caught history)
    (orderly : Orderly (history ++ [.sack chunk nonRenegable stamp]))
    (admitted : h.Admits limits (.sack chunk nonRenegable stamp)) :
    (h.sack limits chunk nonRenegable stamp).1.Caught
      (history ++ [.sack chunk nonRenegable stamp]) := by
  have before : ∀ entry ∈ h.records, entry.2.first.frame < stamp.frame := by
    intro entry there
    obtain ⟨t, sent⟩ := caught.sent entry there
    have ordered := orderly.ordered
    rw [List.filterMap_append, List.pairwise_append] at ordered
    refine UInt32.lt_of_le_of_ne ?_ ?_
    · exact ordered.2.2 _ (List.mem_filterMap.mpr ⟨_, sent, rfl⟩) _ List.mem_cons_self
    · intro same
      refine orderly.apart entry.2.first.frame ?_ ?_
      · exact List.mem_filterMap.mpr ⟨_, List.mem_append_left _ sent, rfl⟩
      · exact List.mem_filterMap.mpr ⟨_, List.mem_append_right _ List.mem_cons_self, congrArg some same.symm⟩
  have whole := acknowledges_sack h limits stamp chunk nonRenegable
  have point := cumulative_sack h limits stamp chunk nonRenegable
  obtain ⟨later, -, gaps⟩ := acknowledges_gaps h limits stamp chunk
  refine ⟨?_, ?_, ?_, ?_⟩
  · intro absent
    rw [whole.others.2.1] at absent
    have unmoved : h.relative? chunk.cumulative = none := by
      simpa [relative?] using absent
    rw [point, cumulativeAck, unmoved]
    exact caught.based absent
  · intro entry' there
    obtain ⟨entry, old, step⟩ := whole.source there
    obtain ⟨t, sent⟩ := caught.sent entry old
    exact ⟨t, List.mem_append_left _ (step.first ▸ sent)⟩
  · intro entry' there ack acked
    obtain ⟨entry, old, step⟩ := whole.source there
    rcases step with rfl | ⟨-, rfl⟩
    · exact caught.later _ old ack acked
    · cases acked
      exact before entry old
  · have settled := acked_cumulativeAck spanned (by rw [pointMove, ← point]; exact admitted) before
      caught.acked
    intro entry' there reached isPoint below
    obtain ⟨entry, old, step⟩ := gaps.source there
    rw [step.relative] at below
    exact step.isSome (settled entry old reached (point ▸ isPoint) below)

theorem Caught.step (cap : Nat) (spanned : 0 < limits.span) (caught : h.Caught history) (e : HalfEvent)
    (orderly : Orderly (history ++ [e])) (admitted : h.Admits limits e) :
    (h.step limits cap e).Caught (history ++ [e]) := by
  cases e with
  | announce tsn => exact caught.announce
  | transmit tsn stamp => exact caught.transmit admitted
  | sack chunk nonRenegable stamp => exact caught.sack spanned orderly admitted

theorem Caught.follow (spanned : 0 < limits.span) (events : List HalfEvent)
    (caught : h.Caught history) (orderly : Orderly (history ++ events))
    (admitted : h.AdmitsAll limits cap events) :
    ∀ before, before <+: events → (h.follow limits cap before).Caught (history ++ before) := by
  induction events generalizing h history with
  | nil =>
    intro before part
    rw [List.prefix_nil.mp part, List.append_nil]
    exact caught
  | cons e rest ih =>
    intro before part
    rw [← List.singleton_append, ← List.append_assoc] at orderly
    have next := caught.step cap spanned e (orderly.of_prefix (List.prefix_append _ _)) admitted.1
    cases before with
    | nil => simpa [Half.follow] using caught
    | cons first more =>
      obtain ⟨rfl, remains⟩ := List.cons_prefix_cons.mp part
      have later := ih next orderly admitted.2 more remains
      rwa [List.append_assoc, List.singleton_append] at later

/-- In every state on the way, each record at or below the cumulative point was acknowledged by a
frame later than its first transmission. -/
theorem acked_up_to_point (flow : Flow) (limits : AckLimits) (cap : Nat)
    (spanned : 0 < limits.span) (events : List HalfEvent) (orderly : Orderly events)
    (admitted : (new flow).AdmitsAll limits cap events) :
    ∀ before, before <+: events →
      ∀ entry ∈ ((new flow).follow limits cap before).records,
        ∀ point ∈ ((new flow).follow limits cap before).cumulative, entry.1 ≤ point →
          ∃ ack, entry.2.ack = some ack ∧ entry.2.first.frame < ack.frame := by
  intro before part entry there point reached below
  have start : (new flow).Caught [] :=
    ⟨fun _ => rfl, by simp [new], by simp [new], by simp [new]⟩
  have here := start.follow spanned events orderly admitted before part
  obtain ⟨ack, acked⟩ := Option.isSome_iff_exists.mp (here.acked entry there point reached below)
  exact ⟨ack, acked, here.later entry there ack acked⟩

/-- The TSNs pass the wrap. One ack comes before the baseline, one TSN is gap-acked first and then
sent again, and the last ack goes back. -/
def wrappingEvents : List HalfEvent :=
  [.transmit 4294967295 ⟨1, ⟨1, 0⟩⟩, .transmit 0 ⟨1, ⟨1, 0⟩⟩, .transmit 1 ⟨2, ⟨2, 0⟩⟩,
    .sack ⟨4294967290, 1500, [], [], []⟩ false ⟨3, ⟨3, 0⟩⟩,
    .sack ⟨4294967295, 1500, [⟨2, 2⟩], [], []⟩ false ⟨4, ⟨4, 0⟩⟩, .announce 7,
    .transmit 1 ⟨5, ⟨5, 0⟩⟩, .sack ⟨1, 1500, [], [], []⟩ false ⟨6, ⟨6, 0⟩⟩,
    .transmit 2 ⟨7, ⟨7, 0⟩⟩, .sack ⟨0, 1500, [], [], []⟩ false ⟨8, ⟨8, 0⟩⟩]

theorem acked_up_to_point_past_the_wrap :
    let final := (new ⟨0, .forward⟩).follow ⟨2, 100⟩ 8 wrappingEvents
    0 < 2 ∧ Orderly wrappingEvents ∧
      (new ⟨0, .forward⟩).AdmitsAll ⟨2, 100⟩ 8 wrappingEvents ∧ final.cumulative = some 2 ∧
      ∀ entry ∈ final.records, entry.1 ≤ 2 →
        ∃ ack, entry.2.ack = some ack ∧ entry.2.first.frame < ack.frame := by
  -- The two lists of frames are compared entry by entry, not over all frame numbers.
  have apart : (wrappingEvents.filterMap HalfEvent.sentIn?).all fun frame =>
      !(wrappingEvents.filterMap HalfEvent.ackedIn?).contains frame := by decide
  have orderly : Orderly wrappingEvents := by
    refine ⟨by decide, ?_⟩
    intro frame sent
    have silent := List.all_eq_true.mp apart frame sent
    simpa only [Bool.not_eq_true', List.contains_eq_mem, decide_eq_false_iff_not] using silent
  have admitted : (new ⟨0, .forward⟩).AdmitsAll ⟨2, 100⟩ 8 wrappingEvents := by decide
  have reached : ((new ⟨0, .forward⟩).follow ⟨2, 100⟩ 8 wrappingEvents).cumulative = some 2 := by
    decide
  refine ⟨by decide, orderly, admitted, reached, ?_⟩
  intro entry there below
  exact acked_up_to_point ⟨0, .forward⟩ ⟨2, 100⟩ 8 (by decide) wrappingEvents orderly admitted
    wrappingEvents (List.prefix_refl _) entry there 2 reached below

end Half

end SctpTrace.Transmission
