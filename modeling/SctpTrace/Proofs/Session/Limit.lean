import SctpTrace.Proofs.Session.Recorded
import SctpTrace.Proofs.Transmission.Crossing

/-!
How often a session reports that a TSN exceeded the cap. As long as frames are analyzed in order,
the limit is reported by every copy of the TSN in one frame, the first one past the cap, and by no
other frame (`limits_visitAll`). So it is reported once, unless that frame carries the TSN more than
once.
-/
namespace SctpTrace.Session

open Wire Transmission

def Finding.limit? (tsn : UInt32) : Finding → Option Nat
  | retransmissionLimit t count => if t = tsn then some count else none
  | _ => none

def limitsOf (flow : Option Flow) (findings : List Finding) (f : Flow) (tsn : UInt32) : List Nat :=
  if flow = some f then findings.filterMap (Finding.limit? tsn) else []

def PacketFacts.limits (p : PacketFacts) (f : Flow) (tsn : UInt32) : List Nat :=
  limitsOf p.flow p.findings f tsn

def ChunkPass.limits (x : ChunkPass) (f : Flow) (tsn : UInt32) : List Nat :=
  limitsOf x.flow x.report.findings f tsn

variable {s : Session} {ctx : Context} {flow : Option Flow} {tables : Tables} {x : ChunkPass}
  {config : Config} {f : Flow} {tsn : UInt32} {chunks : List ChunkPass} {u : DataUnit}

/- Findings of other kinds. -/

theorem filterMap_limit?_packetFindings (d : Datagram) (p : Packet) :
    (packetFindings d p).filterMap (Finding.limit? tsn) = [] := by
  have capture : (captureFindings d).filterMap (Finding.limit? tsn) = [] := by
    unfold captureFindings
    split <;> rfl
  have length : (lengthFindings p.lengthError).filterMap (Finding.limit? tsn) = [] := by
    unfold lengthFindings
    split <;> rfl
  have trailing : (trailingFindings p.trailing).filterMap (Finding.limit? tsn) = [] := by
    unfold trailingFindings
    split <;> rfl
  have bundling : (bundlingFindings p.chunks).filterMap (Finding.limit? tsn) = [] := by
    unfold bundlingFindings
    split
    · rfl
    · rw [List.filterMap_map]
      exact List.filterMap_eq_nil_iff.mpr fun _ _ => rfl
  simp only [packetFindings, List.filterMap_append, capture, length, trailing, bundling,
    List.append_nil]

theorem filterMap_limit?_sackFindings (facts : SackFacts) :
    (sackFindings facts).filterMap (Finding.limit? tsn) = [] := by
  have issues : (facts.issues.map .gapBlock).filterMap (Finding.limit? tsn) = [] := by
    rw [List.filterMap_map]
    exact List.filterMap_eq_nil_iff.mpr fun _ _ => rfl
  rw [sackFindings, List.filterMap_append, issues]
  split <;> rfl

theorem filterMap_limit?_deliver (store : Reassembly.Store) :
    (ctx.deliver store u).findings.filterMap (Finding.limit? tsn) = [] := by
  unfold Context.deliver Context.deliverFragment
  split
  · rfl
  · split
    · simp only
      split <;> rfl
    · split <;> rfl

/-- The limit of a TSN is reported when the count is one more than the cap. -/
theorem filterMap_limit?_retransmissionFindings (cap : Nat) (t : UInt32) (r : Retransmission) :
    (retransmissionFindings cap t r).filterMap (Finding.limit? tsn) =
      if t = tsn ∧ (r.historyTruncated && r.count == cap + 1) = true then [cap + 1] else [] := by
  have past : (if r.historyTruncated && r.count == cap + 1 then
        [Finding.retransmissionLimit t r.count] else []).filterMap (Finding.limit? tsn) =
      if t = tsn ∧ (r.historyTruncated && r.count == cap + 1) = true then [cap + 1] else [] := by
    by_cases crossed : (r.historyTruncated && r.count == cap + 1) = true
    · have count : r.count = cap + 1 := beq_iff_eq.mp (Bool.and_eq_true_iff.mp crossed).2
      rw [if_pos crossed, List.filterMap_cons, List.filterMap_nil, Finding.limit?, count]
      by_cases own : t = tsn
      · rw [if_pos own, if_pos ⟨own, count ▸ crossed⟩]
      · rw [if_neg own, if_neg fun both => own both.1]
    · rw [if_neg crossed, if_neg fun both => crossed both.2]
      rfl
  unfold retransmissionFindings
  cases r.afterAckIn with
  | none => exact past
  | some frame => exact past

theorem filterMap_limit?_transmissionFindings (cap : Nat) (t : UInt32) (o : Option Outcome) :
    (transmissionFindings cap t o).filterMap (Finding.limit? tsn) =
      if t = tsn ∧ (o.bind (·.retransmission)).any (fun r =>
          r.historyTruncated && r.count == cap + 1) = true then [cap + 1]
      else [] := by
  unfold transmissionFindings
  cases o.bind (·.retransmission) with
  | none => exact (if_neg fun both => Bool.false_ne_true both.2).symm
  | some r => exact filterMap_limit?_retransmissionFindings cap t r

theorem filterMap_limit?_takeData :
    (ctx.takeData tables u).2.findings.filterMap (Finding.limit? tsn) =
      (transmissionFindings ctx.config.tsn.maxRetransmissionsTracked u.tsn
        (ctx.transmit tables.tracker u.tsn).2).filterMap (Finding.limit? tsn) := by
  have delivered : (if (ctx.transmit tables.tracker u.tsn).2.any (·.isRetransmission) then
      ⟨tables.store, .retransmission, [], .zero⟩
      else ctx.deliver tables.store u : DeliveryReport).findings.filterMap
        (Finding.limit? tsn) = [] := by
    split
    · rfl
    · exact filterMap_limit?_deliver tables.store
  simp only [Context.takeData, List.filterMap_append, delivered, List.append_nil]

/- What the analyses report is what the chunks report. -/

theorem limits_passes (ctx : Context) (flow : Option Flow) (tables : Tables)
    (chunks : List RawChunk) (f : Flow) (tsn : UInt32) :
    (ctx.passes flow tables chunks).flatMap (·.limits f tsn) =
      limitsOf flow ((ctx.takeAll tables chunks).2.flatMap (·.findings)) f tsn := by
  induction chunks generalizing tables with
  | nil =>
    rw [limitsOf]
    exact (ite_self _).symm
  | cons raw rest ih =>
    rw [Context.takeAll_cons, Context.passes, List.flatMap_cons, List.flatMap_cons, ih, limitsOf,
      limitsOf, List.filterMap_append, ChunkPass.limits, limitsOf]
    split <;> rfl

theorem limits_take (f : Flow) (tsn : UInt32) (s : Session) (d : Datagram) (p : Packet) :
    (s.take d p).2.limits f tsn =
      ((s.context d p).passes (s.assign d p).2 (s.opened d p) p.chunks).flatMap
        (·.limits f tsn) := by
  rw [limits_passes, facts_take, PacketFacts.limits, limitsOf, limitsOf, List.filterMap_append,
    filterMap_limit?_packetFindings]
  rfl

/- One chunk. -/

theorem ChunkPass.transmits_cases (x : ChunkPass) :
    (∃ u, x.event? = some (.transmit u.tsn x.ctx.stamp) ∧
        x.report = (x.ctx.takeData x.before u).2) ∨
      ∀ tsn, x.event?.bind (HalfEvent.stamp? tsn) = none ∧
        x.report.findings.filterMap (Finding.limit? tsn) = [] := by
  unfold event? report Context.takeRaw
  cases x.raw.decode with
  | error reason => exact Or.inr fun _ => ⟨rfl, rfl⟩
  | ok chunk =>
    cases chunk with
    | data c => exact Or.inl ⟨.ofData c, rfl, rfl⟩
    | interleaved c => exact Or.inl ⟨.ofInterleaved c, rfl, rfl⟩
    | sack c => exact Or.inr fun _ => ⟨rfl, filterMap_limit?_sackFindings _⟩
    | nrSack c => exact Or.inr fun _ => ⟨rfl, filterMap_limit?_sackFindings _⟩
    | init c => exact Or.inr fun _ => ⟨rfl, rfl⟩
    | initAck c => exact Or.inr fun _ => ⟨rfl, rfl⟩
    | abort reflected => exact Or.inr fun _ => ⟨rfl, rfl⟩
    | shutdownComplete reflected => exact Or.inr fun _ => ⟨rfl, rfl⟩
    | other code length => exact Or.inr fun _ => ⟨rfl, rfl⟩

def ChunkPass.stampFor? (x : ChunkPass) (f : Flow) (tsn : UInt32) : Option Stamp :=
  (x.eventFor? f).bind (HalfEvent.stamp? tsn)

theorem ChunkPass.stampFor?_eq (x : ChunkPass) (f : Flow) (tsn : UInt32) :
    x.stampFor? f tsn =
      if x.flow = some f then x.event?.bind (HalfEvent.stamp? tsn) else none :=
  stamp_reaching x.event? x.flow

theorem ChunkPass.eq_stamp {stamp : Stamp} (now : x.stampFor? f tsn = some stamp) :
    stamp = x.ctx.stamp := by
  rw [stampFor?_eq] at now
  split at now
  · rcases x.transmits_cases with ⟨u, event, -⟩ | silent
    · rw [event, Option.bind_some, HalfEvent.stamp?] at now
      split at now
      · exact (Option.some.inj now).symm
      · cases now
    · rw [(silent tsn).1] at now
      cases now
  · cases now

theorem stampsOf_eventsFor (chunks : List ChunkPass) (f : Flow) (tsn : UInt32) :
    stampsOf (eventsFor chunks f) tsn = chunks.filterMap (·.stampFor? f tsn) :=
  List.filterMap_filterMap

theorem stampsOf_eventsFor_concat (chunks : List ChunkPass) (x : ChunkPass) (f : Flow)
    (tsn : UInt32) : stampsOf (eventsFor (chunks ++ [x]) f) tsn =
      stampsOf (eventsFor chunks f) tsn ++ (x.stampFor? f tsn).toList := by
  rw [stampsOf_eventsFor, stampsOf_eventsFor, List.filterMap_append, List.filterMap_cons]
  cases x.stampFor? f tsn <;> rfl

theorem pairwise_stampsOf (ordered : (chunks.map (·.frame)).Pairwise (· ≤ ·)) :
    (stampsOf (eventsFor chunks f) tsn).Pairwise fun s s' => s.frame ≤ s'.frame := by
  rw [stampsOf_eventsFor, List.pairwise_filterMap]
  refine (List.pairwise_map.mp ordered).imp fun inOrder s first s' second => ?_
  rw [ChunkPass.eq_stamp first, ChunkPass.eq_stamp second]
  exact inOrder

theorem Followed.remembers {t : Tracker} {h : Half} (followed : Followed config chunks t)
    (there : h ∈ t.halves)
    (ordered : (stampsOf (eventsFor chunks h.flow) tsn).Pairwise fun s s' => s.frame ≤ s'.frame) :
    h.Remembers config.tsn.maxRetransmissionsTracked tsn
      (stampsOf (eventsFor chunks h.flow) tsn) := by
  have remembers := Half.remembers_follow h.flow config.ackLimits
    config.tsn.maxRetransmissionsTracked tsn ordered
  rw [← followed.half there] at remembers
  exact remembers.linked h.peer

/-- A transmission exceeds the limit if it comes with one frame more than the cap before it. -/
theorem ChunkPass.Taken.crosses (taken : x.Taken config) (tracked : config.tsn.enabled = true)
    (followed : Followed config chunks x.before.tracker) (own : x.flow = some f)
    (now : x.stampFor? f tsn = some x.ctx.stamp)
    (ordered : (stampsOf (eventsFor (chunks ++ [x]) f) tsn).Pairwise
      fun s s' => s.frame ≤ s'.frame) :
    ((x.ctx.transmit x.before.tracker tsn).2.bind (·.retransmission)).any (fun r =>
        r.historyTruncated && r.count == x.ctx.config.tsn.maxRetransmissionsTracked + 1) =
      (earlier (framesOf (eventsFor chunks f) tsn) x.frame ==
        config.tsn.maxRetransmissionsTracked + 1) := by
  obtain ⟨rfl, -, seated, placed⟩ := taken
  rcases sender_cases seated (placed tracked) with ⟨noFlow, -⟩ | ⟨id, h, place, found, isFlow⟩
  · rw [own] at noFlow
    cases noFlow
  · rw [own, Option.some.injEq] at isFlow
    subst isFlow
    rw [stampsOf_eventsFor_concat, now, Option.toList_some] at ordered
    have remembers := followed.remembers (List.mem_of_getElem? found)
      (List.pairwise_append.mp ordered).1
    rw [Context.transmit, place, framesOf_eq]
    simp only [Tracker.transmit, found]
    exact remembers.crosses ordered

theorem ChunkPass.Taken.limits (taken : x.Taken config) (tracked : config.tsn.enabled = true)
    (followed : Followed config chunks x.before.tracker)
    (ordered : (stampsOf (eventsFor (chunks ++ [x]) f) tsn).Pairwise
      fun s s' => s.frame ≤ s'.frame) :
    x.limits f tsn = if (x.stampFor? f tsn).isSome = true ∧
        earlier (framesOf (eventsFor chunks f) tsn) x.frame =
          config.tsn.maxRetransmissionsTracked + 1 then
      [config.tsn.maxRetransmissionsTracked + 1] else [] := by
  have stamp := x.stampFor?_eq f tsn
  rw [ChunkPass.limits, limitsOf]
  by_cases own : x.flow = some f
  · rw [if_pos own] at stamp ⊢
    rcases x.transmits_cases with ⟨u, event, report⟩ | silent
    · rw [event, Option.bind_some, HalfEvent.stamp?] at stamp
      rw [report, filterMap_limit?_takeData, filterMap_limit?_transmissionFindings]
      by_cases same : u.tsn = tsn
      · rw [if_pos same] at stamp
        rw [same, taken.crosses tracked followed own stamp ordered, taken.configured, stamp]
        simp only [true_and, beq_iff_eq, Option.isSome_some]
      · rw [if_neg same] at stamp
        rw [stamp, if_neg fun both => same both.1, if_neg fun both => Bool.false_ne_true both.1]
    · rw [(silent tsn).1] at stamp
      rw [(silent tsn).2, stamp, if_neg fun both => Bool.false_ne_true both.1]
  · rw [if_neg own] at stamp ⊢
    rw [stamp, if_neg fun both => Bool.false_ne_true both.1]

/- All chunks of a run. -/

def Reports (config : Config) (chunks : List ChunkPass) (f : Flow) (tsn : UInt32) : Prop :=
  chunks.flatMap (·.limits f tsn) =
    List.replicate (crossing (config.tsn.maxRetransmissionsTracked + 1)
      (framesOf (eventsFor chunks f) tsn)) (config.tsn.maxRetransmissionsTracked + 1)

theorem ChunkPass.Taken.reports (taken : x.Taken config) (tracked : config.tsn.enabled = true)
    (followed : Followed config chunks x.before.tracker)
    (ordered : ((chunks ++ [x]).map (·.frame)).Pairwise (· ≤ ·))
    (before : Reports config chunks f tsn) : Reports config (chunks ++ [x]) f tsn := by
  have stamps : (stampsOf (eventsFor (chunks ++ [x]) f) tsn).Pairwise
      fun s s' => s.frame ≤ s'.frame := pairwise_stampsOf ordered
  rw [Reports, List.flatMap_append, List.flatMap_singleton, before,
    taken.limits tracked followed stamps, framesOf_eq (eventsFor (chunks ++ [x]) f),
    stampsOf_eventsFor_concat]
  rw [stampsOf_eventsFor_concat] at stamps
  cases now : x.stampFor? f tsn with
  | none =>
    rw [if_neg fun both => Bool.false_ne_true both.1, Option.toList_none, List.append_nil,
      List.append_nil, framesOf_eq]
  | some stamp =>
    have own : stamp.frame = x.frame := congrArg (·.frame) (ChunkPass.eq_stamp now)
    have late : ∀ frame ∈ framesOf (eventsFor chunks f) tsn, frame ≤ x.frame := by
      rw [now, List.pairwise_append] at stamps
      rw [framesOf_eq]
      intro frame there
      obtain ⟨old, member, rfl⟩ := List.mem_map.mp there
      rw [← own]
      exact stamps.2.2 old member stamp List.mem_cons_self
    rw [Option.toList_some, List.map_append, List.map_singleton, ← framesOf_eq, own,
      crossing_concat late, List.replicate_add]
    by_cases crossed : earlier (framesOf (eventsFor chunks f) tsn) x.frame =
        config.tsn.maxRetransmissionsTracked + 1
    · rw [if_pos ⟨rfl, crossed⟩, if_pos crossed]
      rfl
    · rw [if_neg fun both => crossed both.2, if_neg crossed]
      rfl

theorem reports_passes (fresh : s.Fresh) (tracked : s.config.tsn.enabled = true)
    (run : List Datagram) (ordered : ((s.passes run).map (·.frame)).Pairwise (· ≤ ·)) (f : Flow)
    (tsn : UInt32) : Reports s.config (s.passes run) f tsn := by
  have reported := passes_induction (s := s)
    (P := fun l tables => Followed s.config l tables.tracker ∧
      ((l.map (·.frame)).Pairwise (· ≤ ·) → Reports s.config l f tsn))
    ?_ ?_ fresh.peered.sound run ?_
  · exact reported.2 ordered
  · exact fun _ _ f kept => ⟨kept.1.ensure f, kept.2⟩
  · rintro l x taken ⟨followed, before⟩
    refine ⟨taken.followed tracked followed, fun ordered => ?_⟩
    have earlierOnes := ordered
    rw [List.map_append, List.pairwise_append] at earlierOnes
    exact taken.reports tracked followed ordered (before earlierOnes.1)
  · rw [fresh.unseen.2]
    exact ⟨⟨Tracker.sound_empty, Tracker.linked_empty, rfl, fun _ _ => rfl⟩, fun _ => rfl⟩

theorem pairwise_passes (fresh : s.Fresh) (run : List Datagram)
    (ordered : ((s.visitAll run).1.analyses.map (·.frame)).Pairwise (· < ·)) :
    ((s.passes run).map (·.frame)).Pairwise (· ≤ ·) := by
  have told := told_visitAll (s := s) run
  have blank : s.analyses = [] := by rw [analyses, fresh.unseen.1, List.map_nil]
  rw [blank, List.flatMap_nil, List.nil_append] at told
  have frames : (s.passes run).map (·.frame) =
      (s.visitAll run).1.analyses.flatMap fun p => p.chunks.map fun _ => p.frame := by
    have read := congrArg (List.map (·.1)) told
    rw [List.map_map, List.map_flatMap] at read
    refine read.symm.trans (congrArg (fun φ => List.flatMap φ _) (funext fun p => ?_))
    rw [PacketFacts.told, List.map_map]
    rfl
  rw [frames, List.pairwise_flatMap]
  refine ⟨?_, (List.pairwise_map.mp ordered).imp ?_⟩
  · intro p _
    rw [List.pairwise_map]
    exact List.pairwise_of_forall fun _ _ => UInt32.le_refl _
  · intro p q before f here g there
    obtain ⟨-, -, rfl⟩ := List.mem_map.mp here
    obtain ⟨-, -, rfl⟩ := List.mem_map.mp there
    exact UInt32.le_of_lt before

/-- If no more than the cap and one frames carry a TSN of a flow, the limit is not reported.
Otherwise it is reported by every copy of the TSN in one frame, the first one with more frames
before it than the cap. -/
theorem limits_visitAll (fresh : s.Fresh) (tracked : s.config.tsn.enabled = true)
    (run : List Datagram)
    (ordered : ((s.visitAll run).1.analyses.map (·.frame)).Pairwise (· < ·)) (f : Flow)
    (tsn : UInt32) :
    let cap := s.config.tsn.maxRetransmissionsTracked
    let answered := onceEach (s.visitAll run).2
    let carried := carriedIn (answered.flatMap (·.told)) f tsn
    let reported := answered.flatMap (·.limits f tsn)
    (carried.dedup.length ≤ cap + 1 → reported = []) ∧
      (cap + 1 < carried.dedup.length → ∃ frame ∈ carried,
        (carried.filter fun g => g < frame).dedup.length = cap + 1 ∧
          reported = List.replicate (carried.count frame) (cap + 1)) := by
  intro cap answered carried reported
  have carriedPerm : (framesOf (eventsFor (s.passes run) f) tsn).Perm carried := by
    rw [framesOf_eventsFor]
    exact (told_onceEach fresh.unseen.1 run).filterMap _
  have whole : reported = List.replicate (crossing (cap + 1) carried) (cap + 1) := by
    have perm : ((s.passes run).flatMap (·.limits f tsn)).Perm reported :=
      flatMap_onceEach (limits_take f tsn) fresh.unseen.1 run
    rw [reports_passes fresh tracked run (pairwise_passes fresh run ordered) f tsn,
      crossing_of_perm carriedPerm] at perm
    exact (List.replicate_perm.mp perm).symm
  rw [whole]
  refine ⟨fun few => by rw [crossing_eq_zero few]; rfl, fun enough => ?_⟩
  obtain ⟨frame, there, number⟩ := exists_earlier_eq enough
  exact ⟨frame, there, number, by rw [crossing_eq_count there number]⟩

def twiceInTheThird : List Datagram :=
  let data := DataChunk.write ⟨10, 1, 5, 0, [65], false, true, true⟩
  [between 1 1000 2000 7 data, between 2 1000 2000 7 data, between 3 1000 2000 7 (data ++ data),
    between 4 1000 2000 7 data]

theorem limits_visitAll_past_one :
    let answered := onceEach ((start oneRetained).visitAll twiceInTheThird).2
    let carried := carriedIn (answered.flatMap (·.told)) ⟨0, .forward⟩ 10
    (start oneRetained).Fresh ∧ carried = [1, 2, 3, 3, 4] ∧
      ∃ frame ∈ carried, (carried.filter fun g => g < frame).dedup.length = 2 ∧
        answered.flatMap (·.limits ⟨0, .forward⟩ 10) =
          List.replicate (carried.count frame) 2 := by
  intro answered carried
  have fresh : (start oneRetained).Fresh := Or.inl ⟨oneRetained, rfl⟩
  have came : carried = [1, 2, 3, 3, 4] := by decide +kernel
  have ordered := pairwise_analyses fresh.unseen.1 twiceInTheThird (by decide)
  have reported := limits_visitAll fresh rfl twiceInTheThird ordered ⟨0, .forward⟩ 10
  have many : 2 < carried.dedup.length := by
    rw [came]
    decide
  exact ⟨fresh, came, reported.2 many⟩

theorem limit_reported_twice :
    ¬ ∀ (session : Session), session.Fresh → session.config.tsn.enabled = true →
      ∀ run : List Datagram, (run.map (·.frame)).Pairwise (· < ·) → ∀ (f : Flow) (tsn : UInt32),
        let answered := onceEach (session.visitAll run).2
        (answered.flatMap (·.limits f tsn)).length =
          if session.config.tsn.maxRetransmissionsTracked + 1 <
              (carriedIn (answered.flatMap (·.told)) f tsn).dedup.length then 1
          else 0 := by
  intro always
  have once := always (start oneRetained) (Or.inl ⟨oneRetained, rfl⟩) rfl twiceInTheThird
    (by decide) ⟨0, .forward⟩ 10
  have reported : (onceEach ((start oneRetained).visitAll twiceInTheThird).2).flatMap
      (·.limits ⟨0, .forward⟩ 10) = [2, 2] := by decide +kernel
  simp only [reported] at once
  split at once <;> cases once

end SctpTrace.Session
