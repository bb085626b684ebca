import SctpTrace.Proofs.Isolation.Run
import SctpTrace.Proofs.Session.Balance

/-!
The counters of a session against what it knows and what it has reported. An acknowledgement is
reported by the SACK that gives it to a record, and by no other chunk (`ReportsAck`).
-/
namespace SctpTrace

def Transmission.Tracker.ack? (t : Transmission.Tracker) (f : Flow) (relative : Nat) :
    Option Stamp :=
  (t.ofFlow? f).bind fun h => h.ack? relative

namespace Session

open Wire Transmission

variable {s : Session} {ctx : Context} {flow : Option Flow} {tables : Tables} {t : Tracker}

/- The acknowledgement of each record, and the reports that name it. -/

/-- What the chunk reports as acknowledged of a record: a SACK acknowledges the flow opposite to
its own. -/
def reportedOf (flow : Option Flow) (report : ChunkReport) (f : Flow) (relative : Nat) :
    List Acked :=
  if flow = some f.opposite then
    ((report.facts.sack?.map (·.acked)).getD []).filter fun a => a.relative == relative
  else []

def ChunkPass.reported (x : ChunkPass) (f : Flow) (relative : Nat) : List Acked :=
  reportedOf x.flow x.report f relative

/-- A record is reported exactly if it gets its acknowledgement now, and it keeps the one that it
has. -/
structure ReportsAck (flow : Option Flow) (tables : Tables) (taken : Tables × ChunkReport)
    (f : Flow) (relative : Nat) : Prop where
  once : (if (taken.1.tracker.ack? f relative).isSome then 1 else 0) =
    (if (tables.tracker.ack? f relative).isSome then 1 else 0) +
      (reportedOf flow taken.2 f relative).length
  kept : ∀ ack, tables.tracker.ack? f relative = some ack →
    taken.1.tracker.ack? f relative = some ack

variable {f : Flow} {relative : Nat}

theorem reportsAck_of_same {taken : Tables × ChunkReport}
    (same : taken.1.tracker.ack? f relative = tables.tracker.ack? f relative)
    (silent : reportedOf flow taken.2 f relative = []) :
    ReportsAck flow tables taken f relative := by
  refine ⟨?_, ?_⟩
  · rw [same, silent, List.length_nil, Nat.add_zero]
  · intro ack before
    rw [same, before]

theorem reportedOf_eq_nil {report : ChunkReport} (other : report.facts.sack? = none) :
    reportedOf flow report f relative = [] := by
  unfold reportedOf
  split
  · rw [other]
    rfl
  · rfl

theorem ack?_setHalf (sound : t.Sound) {id : Nat} {h after : Half} (found : t.half? id = some h)
    (keeps : h.Keeps after) :
    (t.setHalf id after).ack? f relative =
        (if f = h.flow then after.ack? relative else t.ack? f relative) ∧
      (f = h.flow → t.ack? f relative = h.ack? relative) := by
  refine ⟨?_, ?_⟩
  · rw [Tracker.ack?, sound.ofFlow?_setHalf found keeps.flow]
    split <;> rfl
  · rintro rfl
    rw [Tracker.ack?, sound.ofFlow?_own found]
    rfl

theorem reportsAck_takeSack (sound : tables.tracker.Sound)
    (seated : ctx.Seated flow tables.tracker) (chunk : SackChunk) (nonRenegable : Bool) :
    ReportsAck flow tables (ctx.takeSack tables chunk nonRenegable) f relative := by
  simp only [Context.takeSack]
  rcases sack_cases sound seated chunk nonRenegable with same | ⟨id, h, found, own, after⟩
  · rw [same]
    refine reportsAck_of_same rfl ?_
    unfold reportedOf
    split <;> rfl
  rw [after]
  obtain ⟨now, before⟩ := ack?_setHalf (f := f) sound found
    (Half.keeps_sack chunk nonRenegable)
  by_cases acked : f = h.flow
  · have acknowledges :=
      Half.acknowledges_sack h ctx.config.ackLimits ctx.stamp chunk nonRenegable
    have opposite : flow = some f.opposite := by rw [own, acked]
    refine ⟨?_, ?_⟩
    · rw [now, if_pos acked, before acked, reportedOf, if_pos opposite, Nat.add_comm]
      exact (acknowledges.reported (sound.ascending h (List.mem_of_getElem? found))).symm
    · intro ack known
      rw [now, if_pos acked]
      exact acknowledges.ack?_eq_some ((before acked).symm.trans known)
  · apply reportsAck_of_same
    · rw [now, if_neg acked]
    · have elsewhere : flow ≠ some f.opposite := by
        rw [own]
        intro same
        have equal := congrArg Flow.opposite (Option.some.inj same)
        rw [Flow.opposite_opposite, Flow.opposite_opposite] at equal
        exact acked equal.symm
      rw [reportedOf, if_neg elsewhere]

theorem reportsAck_takeRaw (sound : tables.tracker.Sound) (seated : ctx.Seated flow tables.tracker)
    (raw : RawChunk) (f : Flow) (relative : Nat) :
    ReportsAck flow tables (ctx.takeRaw tables raw) f relative := by
  apply takeRaw_cases (P := fun taken => ReportsAck flow tables taken f relative)
  · intro u
    apply reportsAck_of_same _ (reportedOf_eq_nil rfl)
    change (ctx.transmit tables.tracker u.tsn).1.ack? f relative = _
    rcases transmit_cases seated u.tsn with same | ⟨id, h, found, -, after⟩
    · rw [same]
    · obtain ⟨now, before⟩ := ack?_setHalf (f := f) sound found Half.keeps_transmit
      rw [after, now]
      split
      · rename_i own
        rw [before own, Half.ack?_transmit]
      · rfl
  · exact reportsAck_takeSack sound seated
  · intro chunk ack
    apply reportsAck_of_same _ (reportedOf_eq_nil rfl)
    rcases setBaseline_cases seated chunk ack tables.store with same | ⟨id, h, found, -, after⟩
    · rw [same]
    · obtain ⟨now, before⟩ := ack?_setHalf (f := f) sound found Half.keeps_setBaseline
      rw [after, now]
      split
      · rename_i own
        rw [before own, Half.ack?, Half.ack?]
        unfold Half.setBaseline
        split <;> rfl
      · rfl
  · intro facts _ other
    exact reportsAck_of_same rfl (reportedOf_eq_nil other)
  · intro reason
    exact reportsAck_of_same rfl (reportedOf_eq_nil rfl)

theorem ChunkPass.Taken.reportsAck {config : Config} {x : ChunkPass} (taken : x.Taken config)
    (f : Flow) (relative : Nat) : ReportsAck x.flow x.before (x.after, x.report) f relative :=
  reportsAck_takeRaw taken.sound taken.seated x.raw f relative

theorem sum_reported (sound : s.tables.tracker.Sound) (run : List Datagram) (f : Flow)
    (relative : Nat) :
    (if ((s.visitAll run).1.tables.tracker.ack? f relative).isSome then 1 else 0) =
      (if (s.tables.tracker.ack? f relative).isSome then 1 else 0) +
        ((s.passes run).map fun x => (x.reported f relative).length).sum := by
  apply sum_passes fun tables => if (tables.tracker.ack? f relative).isSome then 1 else 0
  · intro tables g
    have unchanged : (tables.tracker.ensure g).1.ack? f relative =
        tables.tracker.ack? f relative := Tracker.bind_ofFlow?_ensure (fun _ _ => rfl) fun _ => rfl
    simp only [unchanged]
  · intro x taken
    exact (taken.reportsAck f relative).once
  · exact sound

structure CountersAgree (s : Session) (facts : List PacketFacts) : Prop where
  acknowledged : s.tally.acknowledged = (s.tables.tracker.halves.map (·.heldCount)).sum
  retransmissions :
    s.tally.retransmissions = (s.tables.tracker.halves.map (·.retransmissionCount)).sum
  messages : s.tally.messagesReassembled = s.tables.store.messageCount
  duplicates : s.tally.duplicateFragments =
    (facts.flatMap (·.findings)).countP (·.isDuplicateFragment)
  reneged : s.tally.reneged = (facts.flatMap (·.findings)).countP (·.isRetransmittedAfterAck)
  malformed : s.tally.malformedChunks = (facts.flatMap (·.findings)).countP (·.isMalformed)
  mismatches : s.tally.checksumMismatches =
    facts.countP fun p => p.checksum.status == .mismatched

theorem Balanced.agree (balanced : s.Balanced) : s.CountersAgree s.analyses := by
  unfold Balanced at balanced
  rw [sum_facts] at balanced
  simp only [Tables.tally, Tracker.tally, Reassembly.Store.tally, tallyOf, Tally.add_eq,
    Nat.zero_add, Nat.add_zero] at balanced
  constructor <;> rw [balanced]

/-- In a run of a fresh session, each record is reported as acknowledged by the chunk that gave it
its acknowledgement and by no other one, and every counter agrees with what the session knows or
with what it has answered, each frame counted once. -/
theorem counters_agree {config : Config} {session : Session} (made : Session.new config = .ok session)
    (run : List Datagram) :
    let final := (session.visitAll run).1
    let answered := onceEach (session.visitAll run).2
    ((session.passes run).map (·.told)).Perm (answered.flatMap (·.told)) ∧
      (∀ x ∈ session.passes run, ∀ f relative,
        (x.reported f relative).length =
          if x.before.tracker.ack? f relative = none ∧
            (x.after.tracker.ack? f relative).isSome then 1 else 0) ∧
      (∀ f relative,
        ((session.passes run).map fun x => (x.reported f relative).length).sum =
          if (final.tables.tracker.ack? f relative).isSome then 1 else 0) ∧
      final.CountersAgree answered := by
  intro final answered
  obtain ⟨-, rfl⟩ := new_eq_ok_iff.mp made
  have sound : (start config).tables.tracker.Sound := Tracker.sound_empty
  have same : answered.Perm final.analyses := onceEach_visitAll rfl run
  refine ⟨?_, ?_, ?_, ?_⟩
  · exact told_onceEach rfl run
  · intro x there f relative
    have taken := (passes_taken sound run x there).reportsAck f relative
    have once := taken.once
    simp only [ChunkPass.reported] at once ⊢
    cases before : x.before.tracker.ack? f relative with
    | none =>
      rw [before] at once
      simpa using once.symm
    | some ack =>
      rw [before, taken.kept ack before] at once
      simp only [Option.isSome_some, if_true] at once
      simp only [reduceCtorEq, false_and, if_false]
      omega
  · intro f relative
    have whole := sum_reported sound run f relative
    have blank : (start config).tables.tracker.ack? f relative = none := rfl
    rw [blank] at whole
    simpa using whole.symm
  · have agree := ((balanced_start config).visitAll run sound).agree
    have findings := same.flatMap_right (·.findings)
    refine ⟨agree.acknowledged, agree.retransmissions, agree.messages, ?_, ?_, ?_, ?_⟩
    · rw [findings.countP_eq]
      exact agree.duplicates
    · rw [findings.countP_eq]
      exact agree.reneged
    · rw [findings.countP_eq]
      exact agree.malformed
    · rw [same.countP_eq]
      exact agree.mismatches

/-- The gap blocks of the SACK overlap, one TSN comes again after its acknowledgement, one fragment
comes under two TSNs, one chunk is cut short, no checksum is right, and one frame is read again. -/
def lossyCapture : List Datagram :=
  [between 1 5000 6000 0 (InitChunk.write ⟨8, 1500, 1, 1, 10⟩ false),
    between 2 6000 5000 8 (InitChunk.write ⟨7, 1500, 1, 1, 30⟩ true),
    between 3 5000 6000 7 (DataChunk.write ⟨10, 1, 5, 0, [65], false, true, false⟩),
    between 4 5000 6000 7 (DataChunk.write ⟨11, 1, 5, 0, [66], false, false, true⟩),
    between 5 6000 5000 8 (SackChunk.write ⟨10, 1500, [⟨1, 1⟩, ⟨1, 2⟩], [], []⟩ false),
    between 6 5000 6000 7 (DataChunk.write ⟨10, 1, 5, 0, [65], false, true, false⟩),
    between 7 5000 6000 7
      (InterleavedChunk.write ⟨12, 1, 6, 0, [67], false, true, false, false⟩),
    between 8 5000 6000 7
      (InterleavedChunk.write ⟨13, 1, 6, 0, [67], false, true, false, false⟩),
    between 9 6000 5000 8 [0, 3, 0, 6, 0, 0, 0, 0],
    between 4 5000 6000 7 (DataChunk.write ⟨11, 1, 5, 0, [66], false, false, true⟩)]

theorem counters_agree_for_a_lossy_capture :
    let fresh := start { checksum := .adler32 }
    Session.new { checksum := .adler32 } = .ok fresh ∧
      (fresh.visitAll lossyCapture).1.tally = ⟨9, 1, 1, 1, 2, 1, 1⟩ ∧
      (fresh.visitAll lossyCapture).1.CountersAgree (onceEach (fresh.visitAll lossyCapture).2) := by
  intro fresh
  have made : Session.new { checksum := .adler32 } = .ok fresh := rfl
  have counts : (fresh.visitAll lossyCapture).1.tally = ⟨9, 1, 1, 1, 2, 1, 1⟩ := by
    decide +kernel
  exact ⟨made, counts, (counters_agree made lossyCapture).2.2.2⟩

end Session

end SctpTrace
