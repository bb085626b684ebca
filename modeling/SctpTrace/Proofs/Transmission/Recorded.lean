import SctpTrace.Proofs.Transmission.Events

/-!
What a record tells of the frames that carried its TSN. The first transmission and the retained
retransmissions ascend, the last frame is the highest of all, and as counted retransmissions ascend
too, there are no more of them than frames between the two (`Record.Recalls`). A half keeps one such
record for every TSN that reached it (`recorded_follow`).
-/
namespace SctpTrace.Transmission

def HalfEvent.carries? (tsn : UInt32) : HalfEvent → Option FrameNumber
  | transmit t stamp => if t = tsn then some stamp.frame else none
  | _ => none

/-- The frames that carry a TSN, in the order in which they were processed. -/
def framesOf (events : List HalfEvent) (tsn : UInt32) : List FrameNumber :=
  events.filterMap (HalfEvent.carries? tsn)

namespace Record

/-- The record of a TSN that came in these frames, when `cap` retransmissions are retained. -/
structure Recalls (cap : Nat) (frames : List FrameNumber) (r : Record) : Prop where
  ordered : (r.first.frame :: r.retransmissions.map (·.frame)).Pairwise (· < ·)
  retained : r.retransmissions.length = min r.retransmissionCount cap
  came : ∀ frame ∈ r.first.frame :: r.retransmissions.map (·.frame), frame ∈ frames
  last : r.lastFrame ∈ frames ∧ ∀ frame ∈ frames, frame ≤ r.lastFrame
  counted : r.first.frame.toNat + r.retransmissionCount ≤ r.lastFrame.toNat
  acked : ∀ ack ∈ r.ack, r.first.frame < ack.frame

def again (r : Record) (stamp : Stamp) (cap : Nat) : Record :=
  if r.first.frame = stamp.frame then r else r.resent stamp cap

def Acks (stamp : Stamp) (r after : Record) : Prop :=
  after = r ∨ r.awaits stamp = true ∧ after = r.acknowledged stamp

variable {r : Record} {cap : Nat} {frames : List FrameNumber} {stamp : Stamp} {tsn : UInt32}

theorem recalls_sent : (Record.sent tsn stamp).Recalls cap [stamp.frame] := by
  refine ⟨List.pairwise_singleton _ _, (Nat.zero_min cap).symm, ?_, ?_, Nat.le_refl _, ?_⟩
  · exact fun frame there => there
  · refine ⟨List.mem_singleton_self _, fun frame there => ?_⟩
    rw [List.mem_singleton.mp there]
    exact UInt32.le_refl _
  · intro ack absent
    cases absent

theorem Recalls.passed (recalls : r.Recalls cap frames) {frame : FrameNumber}
    (passed : frame ≤ r.lastFrame) : r.Recalls cap (frames ++ [frame]) := by
  obtain ⟨ordered, retained, came, last, counted, acked⟩ := recalls
  refine ⟨ordered, retained, fun f there => List.mem_append_left _ (came f there),
    ⟨List.mem_append_left _ last.1, ?_⟩, counted, acked⟩
  intro f there
  rcases List.mem_append.mp there with old | new
  · exact last.2 f old
  · rw [List.mem_singleton.mp new]
    exact passed

theorem Recalls.later (recalls : r.Recalls cap frames) (counts : r.counts stamp.frame = true) :
    (r.resent stamp cap).Recalls cap (frames ++ [stamp.frame]) := by
  obtain ⟨ordered, retained, came, last, counted, acked⟩ := recalls
  rw [resent, if_pos counts]
  simp only [Record.counts, Bool.and_eq_true, decide_eq_true_eq] at counts
  have above := counts.2
  have aboveNat := UInt32.lt_iff_toNat_lt.mp above
  have mem : ∀ {f}, f ∈ frames → f ∈ frames ++ [stamp.frame] := List.mem_append_left _
  have here : stamp.frame ∈ frames ++ [stamp.frame] :=
    List.mem_append_right _ (List.mem_singleton_self _)
  refine ⟨?_, ?_, ?_, ⟨here, ?_⟩, by simp only; omega, acked⟩
  · simp only
    split
    · rw [List.map_append, ← List.cons_append, List.pairwise_append]
      refine ⟨ordered, List.pairwise_singleton _ _, ?_⟩
      intro f there g isNew
      rw [List.map_singleton, List.mem_singleton] at isNew
      rw [isNew]
      exact UInt32.lt_of_le_of_lt (last.2 f (came f there)) above
    · exact ordered
  · simp only
    split
    · rw [List.length_append, List.length_singleton]
      omega
    · omega
  · simp only
    split
    · intro f there
      rw [List.map_append, ← List.cons_append, List.mem_append] at there
      rcases there with old | new
      · exact mem (came f old)
      · rw [List.map_singleton, List.mem_singleton] at new
        rw [new]
        exact here
    · exact fun f there => mem (came f there)
  · intro f there
    rcases List.mem_append.mp there with old | new
    · exact UInt32.le_of_lt (UInt32.lt_of_le_of_lt (last.2 f old) above)
    · rw [List.mem_singleton.mp new]
      exact UInt32.le_refl _

theorem Recalls.again (recalls : r.Recalls cap frames) :
    (r.again stamp cap).Recalls cap (frames ++ [stamp.frame]) := by
  have known : ∀ frame ∈ r.first.frame :: r.retransmissions.map (·.frame), frame ≤ r.lastFrame :=
    fun frame there => recalls.last.2 frame (recalls.came frame there)
  unfold Record.again
  split
  · rename_i first
    rw [← first]
    exact recalls.passed (known _ List.mem_cons_self)
  cases counts : r.counts stamp.frame with
  | true => exact recalls.later counts
  | false =>
    rw [resent, if_neg (by rw [counts]; exact Bool.false_ne_true)]
    refine recalls.passed ?_
    -- A frame that is not counted is retained, or not later than what was counted.
    by_contra late
    have above := UInt32.not_le.mp late
    have free : r.place? stamp.frame ≠ none := by
      intro absent
      simp [Record.counts, absent, above] at counts
    obtain ⟨place, found⟩ := Option.ne_none_iff_exists'.mp free
    obtain ⟨inside, hit, -⟩ := List.findIdx?_eq_some_iff_getElem.mp found
    refine late (known _ (List.mem_cons_of_mem _ ?_))
    rw [← beq_iff_eq.mp hit]
    exact List.mem_map_of_mem (List.getElem_mem inside)

theorem Recalls.acknowledged (recalls : r.Recalls cap frames) (waits : r.awaits stamp = true) :
    (r.acknowledged stamp).Recalls cap frames := by
  obtain ⟨ordered, retained, came, last, counted, -⟩ := recalls
  refine ⟨ordered, retained, came, last, counted, ?_⟩
  rintro ack ⟨⟩
  simp only [awaits, Bool.and_eq_true, decide_eq_true_eq] at waits
  exact waits.2

theorem Recalls.of_perm {later : List FrameNumber} (recalls : r.Recalls cap frames)
    (same : frames.Perm later) : r.Recalls cap later := by
  obtain ⟨ordered, retained, came, last, counted, acked⟩ := recalls
  exact ⟨ordered, retained, fun frame there => same.mem_iff.mp (came frame there),
    ⟨same.mem_iff.mp last.1, fun frame there => last.2 frame (same.mem_iff.mpr there)⟩, counted,
    acked⟩

/-- The counter does not overflow, whatever is processed. -/
theorem Recalls.fits (recalls : r.Recalls cap frames) : r.retransmissionCount < 4294967296 := by
  have counted := recalls.counted
  have bound := r.lastFrame.toNat_lt
  omega

end Record

namespace Half

variable {h : Half} {history events : List HalfEvent} {limits : AckLimits} {cap : Nat}
  {tsn t : UInt32} {stamp : Stamp}

theorem get?_transmit (relative : Nat) :
    Keyed.get? relative (h.transmit tsn stamp cap).1.records =
      if Serial.distance (h.baseline.getD tsn) tsn = relative then
        some (((Keyed.get? relative h.records).map (·.again stamp cap)).getD (.sent tsn stamp))
      else Keyed.get? relative h.records := by
  simp only [transmit, recordAt]
  cases known : Keyed.get? (Serial.distance (h.baseline.getD tsn) tsn) h.records with
  | none =>
    simp only [Keyed.get?_insertOrdered]
    split
    · rename_i same
      rw [← same, known]
      rfl
    · rfl
  | some r =>
    simp only
    by_cases same : Serial.distance (h.baseline.getD tsn) tsn = relative
    · rw [if_pos same, ← same, known, Option.map_some, Option.getD_some, Record.again]
      split
      · exact known
      · rw [Keyed.get?_insertOrdered, if_pos rfl]
    · rw [if_neg same]
      split
      · rfl
      · rw [Keyed.get?_insertOrdered, if_neg same]

theorem get?_ackStep_rel {entries entries' : Keyed Nat Record}
    (steps : List.Forall₂ (AckStep stamp) entries entries') (relative : Nat) :
    Option.Rel (Record.Acks stamp) (Keyed.get? relative entries)
      (Keyed.get? relative entries') := by
  induction steps with
  | nil => exact .none
  | cons step _ ih =>
    rw [Keyed.get?, Keyed.get?, step.relative]
    split
    · rcases step with rfl | ⟨waits, rfl⟩
      · exact .some (Or.inl rfl)
      · exact .some (Or.inr ⟨waits, rfl⟩)
    · exact ih

theorem tsn_again (r : Record) : (r.again stamp cap).tsn = r.tsn := by
  unfold Record.again Record.resent
  split
  · rfl
  · split <;> rfl

/- The record of a TSN after an event. -/

theorem record?_transmit (founded : h.Founded) :
    (h.transmit tsn stamp cap).1.record? t =
      if t = tsn then some (((h.record? tsn).map (·.again stamp cap)).getD (.sent tsn stamp))
      else h.record? t := by
  have baseline := (transmit_fields h tsn stamp cap).1
  rw [record?, relative?, baseline, Option.map_some, Option.bind_some, get?_transmit,
    record?_eq tsn founded, record?_eq tsn founded]
  by_cases same : t = tsn
  · rw [same, if_pos rfl, if_pos rfl]
  · rw [if_neg same, if_neg fun place => same (Serial.distance_inj place).symm]

theorem record?_setBaseline (founded : h.Founded) :
    (h.setBaseline tsn).1.record? t = h.record? t := by
  unfold setBaseline
  split
  · rfl
  · rename_i absent
    rw [record?, record?, founded absent]
    cases h.relative? t <;> rfl

theorem record?_sack (h : Half) (limits : AckLimits) (stamp : Stamp) (chunk : Wire.SackChunk)
    (nonRenegable : Bool) (t : UInt32) :
    Option.Rel (Record.Acks stamp) (h.record? t)
      ((h.sack limits chunk nonRenegable stamp).1.record? t) := by
  have whole := acknowledges_sack h limits stamp chunk nonRenegable
  have place : (h.sack limits chunk nonRenegable stamp).1.relative? t = h.relative? t := by
    rw [relative?, whole.others.2.1, relative?]
  rw [record?, record?, place]
  cases h.relative? t with
  | none => exact .none
  | some relative => exact get?_ackStep_rel whole.records relative

/-- Every record stands at its distance from the baseline, and every TSN that came has one. -/
structure Recorded (cap : Nat) (history : List HalfEvent) (h : Half) : Prop where
  founded : h.Founded
  placed : ∀ relative r, Keyed.get? relative h.records = some r →
    ∃ first, h.baseline = some first ∧ relative = Serial.distance first r.tsn
  recalls : ∀ t r, h.record? t = some r → r.tsn = t ∧ r.Recalls cap (framesOf history t)
  unseen : ∀ t, h.record? t = none → framesOf history t = []

theorem framesOf_concat (history : List HalfEvent) (e : HalfEvent) (t : UInt32) :
    framesOf (history ++ [e]) t = framesOf history t ++ (e.carries? t).toList := by
  rw [framesOf, List.filterMap_append, framesOf, List.filterMap_cons]
  cases e.carries? t <;> rfl

theorem Recorded.silent (recorded : h.Recorded cap history) {e : HalfEvent}
    (nothing : ∀ t, e.carries? t = none) : h.Recorded cap (history ++ [e]) := by
  have same : framesOf (history ++ [e]) = framesOf history := by
    funext t
    rw [framesOf_concat, nothing t]
    exact List.append_nil _
  obtain ⟨founded, placed, recalls, unseen⟩ := recorded
  rw [← same] at recalls unseen
  exact ⟨founded, placed, recalls, unseen⟩

theorem framesOf_transmit (history : List HalfEvent) (tsn : UInt32) (stamp : Stamp) (t : UInt32) :
    framesOf (history ++ [.transmit tsn stamp]) t =
      framesOf history t ++ if t = tsn then [stamp.frame] else [] := by
  rw [framesOf_concat, HalfEvent.carries?]
  by_cases same : t = tsn
  · rw [if_pos same, if_pos same.symm]
    rfl
  · rw [if_neg same, if_neg (Ne.symm same)]
    rfl

theorem Recorded.place_transmit (recorded : h.Recorded cap history) {relative : Nat} {r : Record}
    (found : Keyed.get? relative (h.transmit tsn stamp cap).1.records = some r) :
    relative = Serial.distance (h.baseline.getD tsn) r.tsn := by
  rw [get?_transmit] at found
  split at found
  · rename_i here
    rw [← here]
    cases there : Keyed.get? relative h.records with
    | none =>
      rw [there] at found
      cases found
      rfl
    | some old =>
      rw [there] at found
      cases found
      obtain ⟨first, is, place⟩ := recorded.placed relative old there
      rw [Option.map_some, Option.getD_some, tsn_again, here, place, is]
      rfl
  · obtain ⟨first, is, place⟩ := recorded.placed relative r found
    rw [is]
    exact place

theorem Recorded.recalls_transmit (recorded : h.Recorded cap history) {r : Record}
    (found : (h.transmit tsn stamp cap).1.record? tsn = some r) :
    r.tsn = tsn ∧ r.Recalls cap (framesOf history tsn ++ [stamp.frame]) := by
  rw [record?_transmit recorded.founded, if_pos rfl] at found
  cases there : h.record? tsn with
  | none =>
    rw [there] at found
    cases found
    rw [recorded.unseen tsn there]
    exact ⟨rfl, Record.recalls_sent⟩
  | some old =>
    rw [there] at found
    cases found
    obtain ⟨own, before⟩ := recorded.recalls tsn old there
    exact ⟨(tsn_again old).trans own, before.again⟩

theorem Recorded.transmit (recorded : h.Recorded cap history) :
    (h.transmit tsn stamp cap).1.Recorded cap (history ++ [.transmit tsn stamp]) := by
  refine ⟨founded_transmit, ?placed, ?recalls, ?unseen⟩
  case placed =>
    intro relative r found
    exact ⟨_, (transmit_fields h tsn stamp cap).1, recorded.place_transmit found⟩
  case recalls =>
    intro t r found
    rw [framesOf_transmit]
    by_cases same : t = tsn
    · rw [if_pos same]
      subst same
      exact recorded.recalls_transmit found
    · rw [record?_transmit recorded.founded, if_neg same] at found
      rw [if_neg same, List.append_nil]
      exact recorded.recalls t r found
  case unseen =>
    intro t absent
    rw [record?_transmit recorded.founded] at absent
    split at absent
    · cases absent
    · rename_i other
      rw [framesOf_transmit, if_neg other, List.append_nil]
      exact recorded.unseen t absent

theorem Recorded.announce (recorded : h.Recorded cap history) (tsn : UInt32) :
    (h.setBaseline tsn).1.Recorded cap history := by
  obtain ⟨founded, placed, recalls, unseen⟩ := recorded
  refine ⟨keeps_setBaseline.founded founded, ?_, ?_, ?_⟩
  · unfold setBaseline
    split
    · exact placed
    · rename_i absent
      rw [founded absent]
      intro relative r found
      cases found
  · intro t r found
    rw [record?_setBaseline founded] at found
    exact recalls t r found
  · intro t absent
    rw [record?_setBaseline founded] at absent
    exact unseen t absent

theorem Recorded.sack (recorded : h.Recorded cap history) (chunk : Wire.SackChunk)
    (nonRenegable : Bool) : (h.sack limits chunk nonRenegable stamp).1.Recorded cap history := by
  obtain ⟨founded, placed, recalls, unseen⟩ := recorded
  have whole := acknowledges_sack h limits stamp chunk nonRenegable
  refine ⟨(keeps_sack chunk nonRenegable).founded founded, ?_, ?_, ?_⟩
  · intro relative r' found
    have step := get?_ackStep_rel whole.records relative
    rw [found] at step
    generalize before : Keyed.get? relative h.records = old at step
    cases step with
    | some step =>
      have place := placed relative _ before
      rw [whole.others.2.1]
      rcases step with rfl | ⟨-, rfl⟩ <;> exact place
  · intro t r' found
    have step := record?_sack h limits stamp chunk nonRenegable t
    rw [found] at step
    generalize before : h.record? t = old at step
    cases step with
    | some step =>
      obtain ⟨own, told⟩ := recalls t _ before
      rcases step with rfl | ⟨waits, rfl⟩
      · exact ⟨own, told⟩
      · exact ⟨own, told.acknowledged waits⟩
  · intro t absent
    have step := record?_sack h limits stamp chunk nonRenegable t
    rw [absent] at step
    generalize before : h.record? t = old at step
    cases step
    exact unseen t before

theorem Recorded.step (recorded : h.Recorded cap history) (limits : AckLimits) (e : HalfEvent) :
    (h.step limits cap e).Recorded cap (history ++ [e]) := by
  cases e with
  | announce tsn => exact (recorded.announce tsn).silent fun _ => rfl
  | transmit tsn stamp => exact recorded.transmit
  | sack chunk nonRenegable stamp => exact (recorded.sack chunk nonRenegable).silent fun _ => rfl

theorem Recorded.follow (recorded : h.Recorded cap history) (events : List HalfEvent) :
    (h.follow limits cap events).Recorded cap (history ++ events) := by
  induction events generalizing h history with
  | nil => rwa [List.append_nil]
  | cons e rest ih =>
    have later := ih (recorded.step limits e)
    rwa [List.append_assoc, List.singleton_append] at later

theorem recorded_new (flow : Flow) : (new flow).Recorded cap [] := by
  refine ⟨founded_new flow, ?_, ?_, fun _ _ => rfl⟩
  · intro relative r found
    cases found
  · intro t r found
    cases found

theorem Recorded.record?_eq_some (recorded : h.Recorded cap history) {relative : Nat} {r : Record}
    (found : Keyed.get? relative h.records = some r) : h.record? r.tsn = some r := by
  obtain ⟨first, baseline, place⟩ := recorded.placed relative r found
  rw [record?, relative?, baseline, Option.map_some, Option.bind_some, ← place, found]

theorem Recorded.linked (recorded : h.Recorded cap history) (peer : Option Nat) :
    Half.Recorded cap history { h with peer := peer } :=
  ⟨recorded.founded, recorded.placed, recorded.recalls, recorded.unseen⟩

theorem recorded_follow (flow : Flow) (limits : AckLimits) (cap : Nat) (events : List HalfEvent) :
    ((new flow).follow limits cap events).Recorded cap events :=
  (recorded_new flow).follow events

end Half

end SctpTrace.Transmission
