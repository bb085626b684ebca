import SctpTrace.Proofs.Session.Followed
import SctpTrace.Proofs.Session.Halves
import SctpTrace.Proofs.Transmission.Retransmitted

/-!
The records of a session. A TSN of a flow has a record exactly if an answer tells of a chunk with
it, and the record recalls the frames of all these chunks, in whatever order they were processed
(`recorded_visitAll`).
-/
namespace SctpTrace.Session

open Wire Transmission

def carried? (f : Flow) (tsn : UInt32) (told : FrameNumber × Option Flow × ChunkFacts) :
    Option FrameNumber :=
  if told.2.1 = some f ∧ told.2.2.data?.any (fun d => d.tsn == tsn) = true then some told.1
  else none

def carriedIn (told : List (FrameNumber × Option Flow × ChunkFacts)) (f : Flow) (tsn : UInt32) :
    List FrameNumber :=
  told.filterMap (carried? f tsn)

variable {s : Session} {x : ChunkPass} {f : Flow} {tsn : UInt32}

theorem stamp_reaching (event : Option HalfEvent) (flow : Option Flow) :
    (event.filter fun e => e.reaches flow f).bind (HalfEvent.stamp? tsn) =
      if flow = some f then event.bind (HalfEvent.stamp? tsn) else none := by
  cases event with
  | none => simp
  | some e =>
    rw [Option.filter_some]
    cases e with
    | announce t => split <;> simp [HalfEvent.stamp?]
    | sack chunk nonRenegable stamp => split <;> simp [HalfEvent.stamp?]
    | transmit t stamp =>
      have own : HalfEvent.reaches (.transmit t stamp) flow f = decide (flow = some f) := by
        cases flow <;> simp [HalfEvent.reaches, HalfEvent.target, HalfEvent.isAck, beq_eq_decide]
      rw [own]
      by_cases same : flow = some f <;> simp [same]

theorem carries_reaching (event : Option HalfEvent) (flow : Option Flow) :
    (event.filter fun e => e.reaches flow f).bind (HalfEvent.carries? tsn) =
      if flow = some f then event.bind (HalfEvent.carries? tsn) else none := by
  have read : HalfEvent.carries? tsn = Option.map (·.frame) ∘ HalfEvent.stamp? tsn :=
    funext fun e => e.carries?_eq tsn
  rw [read, ← Option.map_bind, ← Option.map_bind, stamp_reaching]
  split <;> rfl

theorem ChunkPass.carries_event? (x : ChunkPass) (tsn : UInt32) :
    x.event?.bind (HalfEvent.carries? tsn) =
      if x.report.facts.data?.any (fun d => d.tsn == tsn) = true then some x.frame else none := by
  have data : ∀ t : UInt32,
      (some (HalfEvent.transmit t x.ctx.stamp)).bind (HalfEvent.carries? tsn) =
        if (t == tsn) = true then some x.frame else none := by
    intro t
    by_cases same : t = tsn <;> simp [HalfEvent.carries?, same, frame]
  unfold event? report Context.takeRaw
  cases x.raw.decode with
  | error reason => rfl
  | ok chunk =>
    cases chunk with
    | data c => exact data c.tsn
    | interleaved c => exact data c.tsn
    | sack c => rfl
    | nrSack c => rfl
    | init c => rfl
    | initAck c => rfl
    | abort reflected => rfl
    | shutdownComplete reflected => rfl
    | other code length => rfl

theorem framesOf_eventsFor (chunks : List ChunkPass) (f : Flow) (tsn : UInt32) :
    framesOf (eventsFor chunks f) tsn = carriedIn (chunks.map (·.told)) f tsn := by
  rw [framesOf, eventsFor, carriedIn, List.filterMap_filterMap, List.filterMap_map]
  refine List.filterMap_congr fun x _ => ?_
  rw [ChunkPass.eventFor?, carries_reaching, x.carries_event?, Function.comp_apply, carried?,
    ChunkPass.told]
  split <;> simp_all

/-- Each record recalls the frames in which its TSN was processed, and the cumulative point lies in
the lower half of the circle. -/
theorem recorded_visitAll {session : Session} (fresh : session.Fresh) (run : List Datagram) :
    let told := (onceEach (session.visitAll run).2).flatMap (·.told)
    ∀ h ∈ (session.visitAll run).1.tables.tracker.halves,
      (∀ entry ∈ h.records,
        (∃ first, h.baseline = some first ∧ entry.1 = Serial.distance first entry.2.tsn) ∧
          entry.2.Recalls session.config.tsn.maxRetransmissionsTracked
            (carriedIn told h.flow entry.2.tsn) ∧
          entry.2.retransmissionCount < 4294967296) ∧
      (∀ tsn, h.record? tsn = none ↔ carriedIn told h.flow tsn = []) ∧
      ∀ point ∈ h.cumulative, point < 2147483648 := by
  intro told h there
  cases tracked : session.config.tsn.enabled with
  | false =>
    rw [fresh.untracked_visitAll tracked run] at there
    cases there
  | true =>
    have followed := followed_visitAll fresh tracked run
    have recorded : h.Recorded session.config.tsn.maxRetransmissionsTracked
        (eventsFor (session.passes run) h.flow) := by
      have recorded := Half.recorded_follow h.flow session.config.ackLimits
        session.config.tsn.maxRetransmissionsTracked (eventsFor (session.passes run) h.flow)
      rw [← followed.half there] at recorded
      exact recorded.linked h.peer
    -- Of repeated answers the last copy is kept, so the two agree only up to order.
    have same : ∀ tsn, (framesOf (eventsFor (session.passes run) h.flow) tsn).Perm
        (carriedIn told h.flow tsn) := by
      intro tsn
      rw [framesOf_eventsFor]
      exact (told_onceEach fresh.unseen.1 run).filterMap _
    refine ⟨?_, ?_, ((reachable_visitAll fresh run) h there).pointed.low⟩
    · intro entry member
      have found := Keyed.get?_of_mem (followed.sound.ascending h there).nodup member
      have own := recorded.record?_eq_some found
      have recalls := (recorded.recalls _ _ own).2.of_perm (same _)
      exact ⟨recorded.placed entry.1 entry.2 found, recalls, recalls.fits⟩
    · intro tsn
      constructor
      · intro absent
        exact List.nil_perm.mp ((recorded.unseen tsn absent) ▸ same tsn)
      · intro nothing
        cases known : h.record? tsn with
        | none => rfl
        | some r =>
          have recalls := (recorded.recalls tsn r known).2.of_perm (same tsn)
          have first := recalls.came _ List.mem_cons_self
          rw [nothing] at first
          cases first

def oneRetained : Config := { tsn := { maxRetransmissionsTracked := 1 } }

/-- One TSN in five frames, among them two copies in one frame and a frame older than the first, and
a SACK of it. -/
def outOfOrder : List Datagram :=
  let data := DataChunk.write ⟨10, 1, 5, 0, [65], false, true, true⟩
  [between 5 1000 2000 7 data, between 9 1000 2000 7 (data ++ data), between 12 1000 2000 7 data,
    between 3 1000 2000 7 data,
    between 7 2000 1000 7 (SackChunk.write ⟨10, 1500, [], [], []⟩ false)]

def outOfOrderRecord : Record := ⟨10, ⟨5, ⟨5, 0⟩⟩, [⟨9, ⟨9, 0⟩⟩], 2, some ⟨7, ⟨7, 0⟩⟩, 12⟩

theorem recorded_out_of_order :
    (start oneRetained).Fresh ∧
      ∃ h ∈ ((start oneRetained).visitAll outOfOrder).1.tables.tracker.halves,
        h.records = [(0, outOfOrderRecord)] ∧ outOfOrderRecord.Recalls 1 [5, 9, 9, 12, 3] := by
  have fresh : (start oneRetained).Fresh := Or.inl ⟨oneRetained, rfl⟩
  have told : carriedIn ((onceEach ((start oneRetained).visitAll outOfOrder).2).flatMap (·.told))
      ⟨0, .forward⟩ 10 = [5, 9, 9, 12, 3] := by decide +kernel
  have first : (((start oneRetained).visitAll outOfOrder).1.tables.tracker.half? 0).map
      (fun h => (h.flow, h.records)) = some (⟨0, .forward⟩, [(0, outOfOrderRecord)]) := by
    decide +kernel
  obtain ⟨h, here, both⟩ := Option.map_eq_some_iff.mp first
  obtain ⟨flow, records⟩ := Prod.mk.inj both
  have there := List.mem_of_getElem? here
  obtain ⟨each, -, -⟩ := recorded_visitAll fresh outOfOrder h there
  have recalls := (each (0, outOfOrderRecord) (by rw [records]; exact List.mem_cons_self)).2.1
  rw [flow] at recalls
  exact ⟨fresh, h, there, records, told ▸ recalls⟩

end SctpTrace.Session
