import Mathlib.Algebra.Group.Basic
import SctpTrace.Proofs.Session.Passes
import SctpTrace.Proofs.Transmission.Counts

/-!
The counts of a session are those of its tables and of its analyses (`Balanced`): the records and
messages that it holds, and the findings that it has answered. Each chunk and each packet keeps the
two sides in balance.
-/
namespace SctpTrace

theorem Tally.add_eq (s t : Tally) :
    s + t = ⟨s.checksumMismatches + t.checksumMismatches,
      s.duplicateFragments + t.duplicateFragments, s.malformedChunks + t.malformedChunks,
      s.messagesReassembled + t.messagesReassembled, s.acknowledged + t.acknowledged,
      s.reneged + t.reneged, s.retransmissions + t.retransmissions⟩ := rfl

instance : AddCommSemigroup Tally where
  add_assoc := Tally.add_assoc
  add_comm s t := by simp only [Tally.add_eq, Nat.add_comm]

def Transmission.Tracker.tally (t : Transmission.Tracker) : Tally :=
  { acknowledged := (t.halves.map (·.heldCount)).sum
    retransmissions := (t.halves.map (·.retransmissionCount)).sum }

def Reassembly.Store.messageCount (s : Reassembly.Store) : Nat :=
  (s.entries.map fun e => e.2.completed.length).sum

def Reassembly.Store.tally (s : Reassembly.Store) : Tally :=
  { messagesReassembled := s.messageCount }

namespace Session

open Wire Transmission

def Finding.isDuplicateFragment : Finding → Bool
  | duplicateFragment .. => true
  | _ => false

def Finding.isRetransmittedAfterAck : Finding → Bool
  | retransmittedAfterAck .. => true
  | _ => false

def Finding.isMalformed : Finding → Bool
  | malformedChunk .. => true
  | chunkLength .. => true
  | _ => false

def tallyOf (findings : List Finding) : Tally :=
  { duplicateFragments := findings.countP (·.isDuplicateFragment)
    malformedChunks := findings.countP (·.isMalformed)
    reneged := findings.countP (·.isRetransmittedAfterAck) }

def Tables.tally (t : Tables) : Tally := t.tracker.tally + t.store.tally

def PacketFacts.tally (p : PacketFacts) : Tally :=
  { tallyOf p.findings with
    checksumMismatches := if p.checksum.status = .mismatched then 1 else 0 }

theorem tallyOf_append (findings more : List Finding) :
    tallyOf (findings ++ more) = tallyOf findings + tallyOf more := by
  simp only [tallyOf, List.countP_append, Tally.add_eq, Nat.add_zero]

variable {s : Session} {ctx : Context} {flow : Option Flow} {tables : Tables} {d : Datagram}
  {t : Tracker} {store : Reassembly.Store}

section Chunks

theorem tally_add (store : Reassembly.Store) (key : Reassembly.MessageKey) (position : UInt32) (isFirst isLast : Bool)
    (payload : Bytes) (frame : FrameNumber) :
    (store.add key position isFirst isLast payload frame).1.messageCount = store.messageCount := by
  have sum := Keyed.sum_put (fun known : Reassembly.Fragments => known.completed.length) key
    (((store.fragments? key).getD .empty).add position isFirst isLast payload frame).1 store.entries
  have kept : (((store.fragments? key).getD .empty).add position isFirst isLast payload
      frame).1.completed = ((store.fragments? key).getD .empty).completed := by
    unfold Reassembly.Fragments.add
    split <;> rfl
  simp only [kept] at sum
  have before : ((Keyed.get? key store.entries).map fun known => known.completed.length).getD 0 =
      ((store.fragments? key).getD .empty).completed.length := by
    rw [Reassembly.Store.fragments?]
    cases Keyed.get? key store.entries <;> rfl
  rw [before] at sum
  exact Nat.add_right_cancel sum

theorem tally_reassemble (key : Reassembly.MessageKey) (position : UInt32) (frame : FrameNumber) :
    (store.reassemble key position frame).1.tally =
      store.tally + (store.reassemble key position frame).2.tally := by
  unfold Reassembly.Store.reassemble
  cases known : store.fragments? key with
  | none => rfl
  | some fragments =>
    have sum := Keyed.sum_put (fun known : Reassembly.Fragments => known.completed.length) key
      (fragments.reassemble position frame).1 store.entries
    have here : Keyed.get? key store.entries = some fragments := known
    rw [here, Option.map_some, Option.getD_some] at sum
    have grown : (fragments.reassemble position frame).1.completed.length =
        fragments.completed.length +
          (fragments.reassemble position frame).2.tally.messagesReassembled := by
      unfold Reassembly.Fragments.reassemble
      split
      · split <;> rfl
      · split
        · rfl
        · simp [Reassembly.Fragments.assemble, Reassembly.Attempt.tally]
    have only : (fragments.reassemble position frame).2.tally =
        { messagesReassembled :=
            (fragments.reassemble position frame).2.tally.messagesReassembled } := by
      cases (fragments.reassemble position frame).2 <;> rfl
    simp only at sum ⊢
    rw [only]
    simp only [Reassembly.Store.tally, Reassembly.Store.messageCount, Tally.add_eq,
      Tally.mk.injEq, true_and, and_true]
    omega

theorem balance_deliver (data : DataUnit) :
    (ctx.deliver store data).store.tally + tallyOf (ctx.deliver store data).findings =
      store.tally + (ctx.deliver store data).tally := by
  unfold Context.deliver
  split
  · rfl
  split
  · have stored := tally_add store (ctx.messageKey data) data.position data.beginning
      data.ending data.payload ctx.stamp.frame
    simp only [Context.deliverFragment]
    split
    · rename_i addition
      rw [Reassembly.Store.tally, stored, addition]
      rfl
    · rw [tally_reassemble, Reassembly.Store.tally, stored]
      rfl
  · split <;> rfl

theorem balance_setHalf {id : Nat} {h after : Half} (found : t.half? id = some h) (counted : Tally)
    (balanced : (Tally.mk 0 0 0 0 after.heldCount 0 after.retransmissionCount) =
      Tally.mk 0 0 0 0 h.heldCount 0 h.retransmissionCount + counted) :
    (t.setHalf id after).tally = t.tally + counted := by
  have held := Tracker.sum_setHalf (·.heldCount) after found
  have resent := Tracker.sum_setHalf (·.retransmissionCount) after found
  simp only [Tally.add_eq, Tally.mk.injEq, Tracker.tally] at balanced held resent ⊢
  omega

theorem tally_outcome (o : Outcome) :
    o.tally = { retransmissions := o.tally.retransmissions, reneged := o.tally.reneged } := by
  unfold Outcome.tally
  split <;> rfl

theorem tallyOf_transmissionFindings (cap : Nat) (tsn : UInt32) (o : Outcome) :
    tallyOf (transmissionFindings cap tsn (some o)) = { reneged := o.tally.reneged } := by
  simp only [transmissionFindings, Option.bind_some, Outcome.tally]
  cases o.retransmission with
  | none => rfl
  | some r =>
    have limit : tallyOf (if r.historyTruncated && r.count == cap + 1 then
        [.retransmissionLimit tsn r.count] else []) = .zero := by
      split <;> rfl
    simp only [retransmissionFindings, tallyOf_append, Retransmission.tally, limit]
    cases r.afterAckIn <;> rfl

theorem balance_transmit (sound : t.Sound) (seated : ctx.Seated flow t) (tsn : UInt32) (cap : Nat) :
    (ctx.transmit t tsn).1.tally + tallyOf (transmissionFindings cap tsn (ctx.transmit t tsn).2) =
      t.tally + ((ctx.transmit t tsn).2.map (·.tally)).getD .zero := by
  rcases transmit_cases seated tsn with same | ⟨id, h, found, -, after⟩
  · rw [same]
    rfl
  · have ascending := sound.ascending h (List.mem_of_getElem? found)
    obtain ⟨held, resent⟩ := Half.count_transmit tsn ctx.stamp
      ctx.config.tsn.maxRetransmissionsTracked ascending
    have moved := balance_setHalf found { retransmissions := _ } (by rw [held, resent]; rfl)
    rw [after, Option.map_some, Option.getD_some, tallyOf_transmissionFindings, moved, add_assoc,
      tally_outcome]
    simp only [Tally.add_eq, Nat.zero_add, Nat.add_zero]

theorem balance_takeData (sound : tables.tracker.Sound) (seated : ctx.Seated flow tables.tracker)
    (u : DataUnit) :
    (ctx.takeData tables u).1.tally + tallyOf (ctx.takeData tables u).2.findings =
      tables.tally + (ctx.takeData tables u).2.tally := by
  have sent := balance_transmit sound seated u.tsn ctx.config.tsn.maxRetransmissionsTracked
  have delivered : ∀ again : Bool,
      (if again then ⟨tables.store, .retransmission, [], .zero⟩
        else ctx.deliver tables.store u : DeliveryReport).store.tally +
        tallyOf (if again then ⟨tables.store, .retransmission, [], .zero⟩
          else ctx.deliver tables.store u : DeliveryReport).findings =
      tables.store.tally + (if again then ⟨tables.store, .retransmission, [], .zero⟩
        else ctx.deliver tables.store u : DeliveryReport).tally := by
    intro again
    cases again with
    | true => rfl
    | false => exact balance_deliver u
  simp only [Context.takeData, Tables.tally, tallyOf_append]
  rw [add_add_add_comm, sent, delivered, add_add_add_comm]

theorem tallyOf_sackFindings (facts : SackFacts) : tallyOf (sackFindings facts) = .zero := by
  have issues : tallyOf (facts.issues.map .gapBlock) = .zero := by
    simp [tallyOf, List.countP_map, Function.comp_def, Finding.isDuplicateFragment,
      Finding.isMalformed, Finding.isRetransmittedAfterAck, Tally.zero]
  rw [sackFindings, tallyOf_append, issues]
  split <;> rfl

theorem balance_takeSack (sound : tables.tracker.Sound) (seated : ctx.Seated flow tables.tracker)
    (chunk : SackChunk) (nonRenegable : Bool) :
    (ctx.takeSack tables chunk nonRenegable).1.tally +
        tallyOf (ctx.takeSack tables chunk nonRenegable).2.findings =
      tables.tally + (ctx.takeSack tables chunk nonRenegable).2.tally := by
  simp only [Context.takeSack, Tables.tally, tallyOf_sackFindings]
  rcases sack_cases sound seated chunk nonRenegable with same | ⟨id, h, found, -, after⟩
  · rw [same]
    rfl
  · obtain ⟨held, resent⟩ :=
      (Half.acknowledges_sack h ctx.config.ackLimits ctx.stamp chunk nonRenegable).count
    have moved := balance_setHalf found (SackFacts.tally _) (by rw [held, resent]; rfl)
    rw [after, moved, add_right_comm]
    rfl

theorem balance_takeInit (seated : ctx.Seated flow tables.tracker) (chunk : InitChunk)
    (ack : Bool) : (ctx.takeInit tables chunk ack).1.tally = tables.tally := by
  rcases setBaseline_cases seated chunk ack tables.store with same | ⟨id, h, found, -, after⟩
  · rw [same]
  · have kept : (h.setBaseline chunk.initialTsn).1.records = h.records := by
      unfold Half.setBaseline
      split <;> rfl
    have moved : (tables.tracker.setHalf id (h.setBaseline chunk.initialTsn).1).tally =
        tables.tracker.tally + .zero := balance_setHalf found .zero (by
      rw [Half.heldCount, Half.retransmissionCount, kept]
      rfl)
    rw [after, Tables.tally, moved]
    rfl

/-- A chunk changes what is known as its report counts. -/
theorem balance_takeRaw (sound : tables.tracker.Sound) (seated : ctx.Seated flow tables.tracker)
    (raw : RawChunk) :
    (ctx.takeRaw tables raw).1.tally + tallyOf (ctx.takeRaw tables raw).2.findings =
      tables.tally + (ctx.takeRaw tables raw).2.tally := by
  apply takeRaw_cases (P := fun taken =>
    taken.1.tally + tallyOf taken.2.findings = tables.tally + taken.2.tally)
  · exact balance_takeData sound seated
  · exact balance_takeSack sound seated
  · intro chunk ack
    rw [balance_takeInit seated]
    rfl
  · exact fun _ _ _ => rfl
  · exact fun _ => rfl

end Chunks

theorem balance_takeAll {config : Config} (chunks : List RawChunk)
    (first : ∀ raw, ChunkPass.Taken config ⟨ctx, flow, tables, raw⟩) :
    (ctx.takeAll tables chunks).1.tally +
        tallyOf ((ctx.takeAll tables chunks).2.flatMap (·.findings)) =
      tables.tally + Tally.sum ((ctx.takeAll tables chunks).2.map (·.tally)) := by
  induction chunks generalizing tables with
  | nil => rfl
  | cons raw rest ih =>
    have here := balance_takeRaw (first raw).sound (first raw).seated raw
    have later := ih fun next => (first raw).next next
    simp only [ChunkPass.after] at later
    rw [Context.takeAll_cons, List.flatMap_cons, tallyOf_append, add_left_comm, later,
      List.map_cons]
    change _ = tables.tally + ((ctx.takeRaw tables raw).2.tally + Tally.sum _)
    rw [← add_assoc, ← add_assoc, ← here, add_comm (tallyOf _)]

/-- The counts of a session are those of its tables and of its analyses. -/
def Balanced (s : Session) : Prop :=
  s.tally = s.tables.tally + Tally.sum (s.analyses.map (·.tally))

theorem balanced_start (config : Config) : (start config).Balanced := rfl

theorem tallyOf_packetFindings (d : Datagram) (p : Packet) :
    tallyOf (packetFindings d p) = { malformedChunks := (lengthFindings p.lengthError).length } := by
  have capture : tallyOf (captureFindings d) = .zero := by
    unfold captureFindings
    split <;> rfl
  have length : tallyOf (lengthFindings p.lengthError) =
      { malformedChunks := (lengthFindings p.lengthError).length } := by
    unfold lengthFindings
    split <;> rfl
  have trailing : tallyOf (trailingFindings p.trailing) = .zero := by
    unfold trailingFindings
    split <;> rfl
  have bundling : tallyOf (bundlingFindings p.chunks) = .zero := by
    unfold bundlingFindings
    split
    · rfl
    · simp [tallyOf, List.countP_map, Function.comp_def, Finding.isDuplicateFragment,
        Finding.isMalformed, Finding.isRetransmittedAfterAck, Tally.zero]
  rw [packetFindings, tallyOf_append, tallyOf_append, tallyOf_append, capture, length, trailing,
    bundling]
  simp only [Tally.add_eq, Tally.zero, Nat.zero_add, Nat.add_zero]

theorem sum_append (tallies more : List Tally) :
    Tally.sum (tallies ++ more) = Tally.sum tallies + Tally.sum more := by
  induction tallies with
  | nil => exact (Tally.zero_add _).symm
  | cons first rest ih =>
    change first + Tally.sum (rest ++ more) = first + Tally.sum rest + Tally.sum more
    rw [ih, add_assoc]

theorem tally_facts_take (d : Datagram) (p : Packet) :
    (s.take d p).2.tally =
      packetTally (Checksum.verify d.data d.reported s.config.checksum) p +
        tallyOf ((s.taken d p).2.flatMap (·.findings)) := by
  rw [facts_take, PacketFacts.tally, tallyOf_append, tallyOf_packetFindings]
  simp only [packetTally, tallyOf, Tally.add_eq, Nat.zero_add, Nat.add_zero]

theorem balance_taken (sound : s.tables.tracker.Sound) (d : Datagram) (p : Packet) :
    (s.taken d p).1.tally + tallyOf ((s.taken d p).2.flatMap (·.findings)) =
      s.tables.tally + Tally.sum ((s.taken d p).2.map (·.tally)) := by
  have unchanged : (s.opened d p).tally = s.tables.tally := by
    apply opened_neutral (Q := fun tables => tables.tally = s.tables.tally) _ d p rfl
    intro tables f same
    rw [← same]
    simp only [Tables.tally, Tracker.tally]
    rw [Tracker.sum_ensure (fun _ _ => rfl) fun _ => rfl,
      Tracker.sum_ensure (fun _ _ => rfl) fun _ => rfl]
  rw [← unchanged]
  exact balance_takeAll p.chunks (taken_first sound d p)

theorem Balanced.visit (balanced : s.Balanced) (sound : s.tables.tracker.Sound) (d : Datagram) :
    (s.visit d).1.Balanced := by
  have visited := visit_cases s d
  generalize s.visit d = outcome at visited ⊢
  cases visited with
  | repeated entry known =>
    unfold Balanced at balanced ⊢
    rw [analyses, analyses_repeated known]
    exact balanced
  | refused e new undecoded => exact balanced
  | taken p new decoded =>
    have counted : (s.take d p).1.tally =
        s.tally + packetTally (Checksum.verify d.data d.reported s.config.checksum) p +
          Tally.sum ((s.taken d p).2.map (·.tally)) := rfl
    have one : Tally.sum [(s.take d p).2.tally] = (s.take d p).2.tally := Tally.add_zero _
    have known := balance_taken sound d p
    unfold Balanced at balanced ⊢
    rw [counted, balanced, (take_eq d p).2.2.1, analyses_take p new, List.map_append, sum_append,
      List.map_singleton, one, tally_facts_take, ← add_assoc, add_left_comm, ← add_assoc]
    rw [add_right_comm _ _ (Tally.sum _), add_right_comm s.tables.tally, ← known]
    ac_rfl

theorem Balanced.visitAll (run : List Datagram) (balanced : s.Balanced)
    (sound : s.tables.tracker.Sound) : (s.visitAll run).1.Balanced := by
  induction run generalizing s with
  | nil => exact balanced
  | cons d rest ih => exact ih (balanced.visit sound d) (sound_visit sound d).1

theorem sum_facts (facts : List PacketFacts) :
    Tally.sum (facts.map (·.tally)) =
      { tallyOf (facts.flatMap (·.findings)) with
        checksumMismatches := facts.countP fun p => p.checksum.status == .mismatched } := by
  induction facts with
  | nil => rfl
  | cons p rest ih =>
    change p.tally + Tally.sum (rest.map (·.tally)) = _
    rw [ih, List.flatMap_cons, tallyOf_append, PacketFacts.tally, List.countP_cons]
    simp only [Tally.add_eq, beq_iff_eq, Tally.mk.injEq, and_true]
    exact Nat.add_comm _ _

end Session

end SctpTrace
