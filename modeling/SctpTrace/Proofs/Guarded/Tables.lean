import SctpTrace.Proofs.Association.Unique
import SctpTrace.Proofs.Guarded.Reading
import SctpTrace.Proofs.Transmission.Reachable

/-!
The association table and the halves with every operation that is not defined everywhere written
out: a place in a list that must be there, a range that must not be backwards, a number that must
stay in its type. In the states that a table or a half can be in, none of them fails.
-/
namespace SctpTrace.Guarded

open Transmission Wire

/- Finding an association. -/

/-- The first answer along a list; what follows it is not looked at. -/
def findSome {α β : Type} (look : α → Option (Option β)) : List α → Option (Option β)
  | [] => some none
  | a :: rest => do
    match ← look a with
    | some b => return some b
    | none => findSome look rest

theorem findSome_eq {α β : Type} {look : α → Option (Option β)} {find : α → Option β} {l : List α}
    (same : ∀ a ∈ l, look a = some (find a)) : findSome look l = some (l.findSome? find) := by
  induction l with
  | nil => rfl
  | cons a rest ih =>
    rw [findSome, same a List.mem_cons_self, List.findSome?_cons]
    cases find a with
    | some b => rfl
    | none => exact ih fun b there => same b (List.mem_cons_of_mem _ there)

def candidate (t : AssociationTable) (o : Observation) (index : Nat) : Option (Option Flow) :=
  t.associations[index]?.map fun a => (a.direction? o).map (Flow.mk index)

def lookup (t : AssociationTable) (o : Observation) : Option (Option Flow) :=
  match t.lookupPair? o with
  | some found => some (some found)
  | none =>
    findSome (fun tag => findSome (candidate t o)
      (t.bucket (.of o.sourcePort o.destinationPort tag))) o.probes

def learn (t : AssociationTable) (found : Flow) (o : Observation) : Option AssociationTable :=
  t.associations[found.index]?.map fun _ => t.learn found o

def assign (t : AssociationTable) (frame : FrameNumber) (o : Observation) :
    Option (AssociationTable × Flow) := do
  let (t, flow) ←
    match ← lookup t o with
    | some found => (learn t found o).map fun t => (t, found)
    | none => (word t.associations.length).map fun index => (t.introduce frame o, ⟨index, .forward⟩)
  return ({ t with frames := Keyed.put frame flow t.frames }, flow)

def resolve (t : AssociationTable) (frame : FrameNumber) (o : Observation) :
    Option (AssociationTable × Option Flow) :=
  match Keyed.get? frame t.frames with
  | some flow => some (t, some flow)
  | none => (assign t frame o).map fun (t, flow) => (t, some flow)

section
variable {t : AssociationTable}

theorem lookup_eq (exact : t.Exact) (o : Observation) : lookup t o = some (t.lookup? o) := by
  have listed : ∀ tag, ∀ index ∈ t.bucket (.of o.sourcePort o.destinationPort tag),
      candidate t o index = some (t.candidate? o index) := by
    intro tag index there
    obtain ⟨a, here, -⟩ := (exact.single _ _ _ _).mp there
    simp only [candidate, AssociationTable.candidate?, here, Option.map_some,
      Option.bind_eq_bind, Option.bind_some]
    cases a.direction? o <;> rfl
  unfold lookup AssociationTable.lookup?
  cases t.lookupPair? o with
  | some found => rfl
  | none => exact findSome_eq fun tag _ => findSome_eq (listed tag)

theorem resolve_eq (reachable : t.Reachable) (frame : FrameNumber) (o : Observation) :
    resolve t frame o = some (t.resolve frame false o) := by
  unfold resolve
  cases known : Keyed.get? frame t.frames with
  | some flow => simp [AssociationTable.resolve, known]
  | none =>
    rw [AssociationTable.resolve_new known]
    -- The table after this frame has at most one association for each frame number there is.
    have bound := (reachable.resolve frame false o).length_le
    rw [AssociationTable.resolve_new known] at bound
    unfold assign AssociationTable.assign
    rw [lookup_eq reachable.exact]
    simp only [Option.bind_eq_bind, Option.bind_some]
    cases found : t.lookup? o with
    | some f =>
      obtain ⟨a, here, -⟩ := reachable.exact.lookup?_sound found
      simp [learn, here]
    | none =>
      have fits : t.associations.length < 4294967296 := by
        simp only [AssociationTable.assign, found, Isolation.TableSim.introduce_eq,
          List.length_append, List.length_singleton] at bound
        omega
      simp [word_eq fits]

end

/- The halves. -/

def ensure (t : Tracker) (f : Flow) : Option (Tracker × Nat) :=
  match t.find? f with
  | some id => some (t, id)
  | none => do
    let id := t.halves.length
    let added := t.halves ++ [Half.new f]
    match t.find? f.opposite with
    | none => return (⟨added⟩, id)
    | some peer =>
      let own ← added[id]?
      let linked := added.set id { own with peer := some peer }
      let other ← linked[peer]?
      return (⟨linked.set peer { other with peer := some id }⟩, id)

def resent (r : Record) (stamp : Stamp) (cap : Nat) : Option Record :=
  if r.counts stamp.frame then
    (word (r.retransmissionCount + 1)).map fun count =>
      { r with
        retransmissionCount := count
        lastFrame := stamp.frame
        retransmissions :=
          if r.retransmissions.length < cap then r.retransmissions ++ [stamp]
          else r.retransmissions }
  else some r

def retransmission (r : Record) (stamp : Stamp) (cap : Nat) : Option (Record × Retransmission) := do
  let after ← resent r stamp cap
  let count ←
    match r.place? stamp.frame with
    | some place => word (place + 1)
    | none => some after.retransmissionCount
  return (after,
    { r.retransmission stamp cap with
      count := count
      historyTruncated := decide (cap < after.retransmissionCount) })

def recordAt (h : Half) (relative : Nat) (tsn : UInt32) (stamp : Stamp) (cap : Nat) :
    Option (Half × Outcome) :=
  match Keyed.get? relative h.records with
  | none => some (h.recordAt relative tsn stamp cap)
  | some r =>
    if r.first.frame = stamp.frame then some (h.recordAt relative tsn stamp cap)
    else
      (retransmission r stamp cap).map fun (after, again) =>
        ({ h with records := Keyed.insertOrdered relative after h.records },
          ⟨tsn, relative, some again, r.ack, r.roundTrip?⟩)

def transmit (t : Tracker) (id : Nat) (tsn : UInt32) (stamp : Stamp) (cap : Nat) :
    Option (Tracker × Option Outcome) :=
  match t.half? id with
  | none => some (t, none)
  | some h =>
    let first := h.baseline.getD tsn
    (recordAt { h with baseline := some first } (Serial.distance first tsn) tsn stamp cap).map
      fun (h, outcome) => (t.setHalf id h, some outcome)

/- What a SACK does. -/

def acknowledge (h : Half) (low high : Nat) (stamp : Stamp) (kind : AckKind) :
    Option (Half × List Acked) :=
  if low ≤ high then some (h.acknowledge low high stamp kind) else none

/-- An ack at or before the point reached adds nothing; otherwise the difference must not be
negative, and the first ack of all must leave room for one more. -/
def advance (h : Half) (relative : Nat) : Option Nat :=
  match h.cumulative with
  | some point => if relative ≤ point then some 0 else minus relative point
  | none => word (relative + 1)

def cumulativeAck (h : Half) (limits : AckLimits) (cumulative : UInt32) (stamp : Stamp) :
    Option (Half × List Acked) :=
  match h.relative? cumulative with
  | none => some (h, [])
  | some relative =>
    if 2147483648 ≤ relative then some (h, [])
    else do
      let added ← advance h relative
      let moved := { h with cumulative := some (max (h.cumulative.getD 0) relative) }
      if limits.span < added then return (moved, [])
      else acknowledge moved (relative - (limits.span - 1)) relative stamp .cumulative

def gapAck (h : Half) (limits : AckLimits) (cumulative : UInt32) (block : GapBlock)
    (stamp : Stamp) (kind : AckKind) : Option (Half × List Acked) :=
  if block.stop < block.start then some (h, [])
  else
    match h.relative? cumulative with
    | none => some (h, [])
    | some relative =>
      match word (relative + block.start.toNat), word (relative + block.stop.toNat) with
      | some low, some high => do
        let length ← minus high low
        if limits.span ≤ length then return (h, [])
        else acknowledge h low high stamp kind
      | _, _ => some (h, [])

def gapAcks (limits : AckLimits) (cumulative : UInt32) (stamp : Stamp) (kind : AckKind) :
    Half → List GapBlock → Option (Half × List Acked)
  | h, [] => some (h, [])
  | h, block :: rest => do
    let (h, first) ← gapAck h limits cumulative block stamp kind
    let (h, later) ← gapAcks limits cumulative stamp kind h rest
    return (h, first ++ later)

def applySack (h : Half) (limits : AckLimits) (sack : SackChunk) (stamp : Stamp) :
    Option (Half × List Acked) := do
  let (h, byPoint) ← cumulativeAck h limits sack.cumulative stamp
  let (h, byGap) ← gapAcks limits sack.cumulative stamp .gap h sack.gaps
  let (h, byKept) ← gapAcks limits sack.cumulative stamp .nonRenegableGap h sack.nonRenegableGaps
  return (h, byPoint ++ byGap ++ byKept)

def gapAckedCount (sum : Nat) : List GapBlock → Option Nat
  | [] => some sum
  | block :: rest =>
    if blockIsValid block then do
      let length ← minus block.stop.toNat block.start.toNat
      let size ← word (length + 1)
      gapAckedCount (← word (sum + size)) rest
    else gapAckedCount sum rest

def sackFacts (limits : AckLimits) (sack : SackChunk) (nonRenegable : Bool)
    (acked : List Acked) : Option SackFacts :=
  (gapAckedCount 0 sack.gaps).map fun gapAcked =>
    ⟨sack.cumulative, nonRenegable, acked, gapIssues sack, gapAcked,
      decide (limits.gapWarning < gapAcked), sack.duplicates⟩

def sack (t : Tracker) (acknowledged : Option Nat) (limits : AckLimits) (chunk : SackChunk)
    (nonRenegable : Bool) (stamp : Stamp) : Option (Tracker × SackFacts) :=
  match acknowledged.bind fun id => (t.half? id).map fun h => (id, h) with
  | none => (sackFacts limits chunk nonRenegable []).map fun facts => (t, facts)
  | some (id, h) => do
    let (after, acked) ← applySack h limits chunk stamp
    let facts ← sackFacts limits chunk nonRenegable acked
    return (t.setHalf id after, facts)

section
variable {t : Tracker} {h : Half} {limits : AckLimits} {cap : Nat} {tsn : UInt32} {stamp : Stamp}
  {r : Record}

theorem ensure_eq (t : Tracker) (f : Flow) : ensure t f = some (t.ensure f) := by
  unfold ensure Tracker.ensure
  cases t.find? f with
  | some id => rfl
  | none =>
    cases found : t.find? f.opposite with
    | none => rfl
    | some peer =>
      obtain ⟨other, there, -⟩ := Tracker.half?_of_find? found
      rw [Tracker.half?] at there
      obtain ⟨inside, rfl⟩ := List.getElem?_eq_some_iff.mp there
      have modified : t.halves.modify peer (fun h => { h with peer := some t.halves.length }) =
          t.halves.set peer { t.halves[peer] with peer := some t.halves.length } := by
        rw [List.modify_eq_set_getElem?, there]
        rfl
      simp [Tracker.link, List.getElem?_append_left inside, modified, inside]

theorem resent_eq (spread : r.Spread) (stamp : Stamp) (cap : Nat) :
    resent r stamp cap = some (r.resent stamp cap) := by
  unfold resent Record.resent
  split
  · rename_i counts
    simp only [Record.counts, Bool.and_eq_true, decide_eq_true_eq] at counts
    -- The new frame is above the last one, and that is at least the count.
    have later := UInt32.lt_iff_toNat_lt.mp counts.2
    have bound := stamp.frame.toNat_lt
    have frames := spread.frames
    rw [word_eq (by omega)]
    rfl
  · rfl

theorem retransmission_eq (spread : r.Spread) (stamp : Stamp) (cap : Nat) :
    retransmission r stamp cap = some (r.resent stamp cap, r.retransmission stamp cap) := by
  unfold retransmission
  rw [resent_eq spread]
  simp only [Option.bind_eq_bind, Option.bind_some, Record.retransmission]
  cases place : r.place? stamp.frame with
  | none => rfl
  | some n =>
    have inside := (List.findIdx?_eq_some_iff_getElem.mp place).1
    have frames := spread.frames
    have retained := spread.retained
    have bound := r.lastFrame.toNat_lt
    simp only [word_eq (show n + 1 < 4294967296 by omega)]
    rfl

theorem transmit_eq (reachable : t.Reachable limits cap) (id : Nat) (tsn : UInt32)
    (stamp : Stamp) : transmit t id tsn stamp cap = some (t.transmit id tsn stamp cap) := by
  unfold transmit Tracker.transmit
  cases found : t.half? id with
  | none => rfl
  | some h =>
    have half := reachable h (List.mem_of_getElem? found)
    simp only [Half.transmit, recordAt, Half.recordAt]
    cases known : Keyed.get? (Serial.distance (h.baseline.getD tsn) tsn) h.records with
    | none => rfl
    | some r =>
      obtain ⟨frames, recalls⟩ := half.recalls known
      simp only [retransmission_eq recalls.spread]
      split <;> rfl

theorem limit_fits (reachable : t.Reachable limits cap) (id : Nat) (tsn : UInt32)
    (stamp : Stamp) : ∀ again ∈ (t.transmit id tsn stamp cap).2.bind (·.retransmission),
      again.historyTruncated = true → cap + 1 < 4294967296 := by
  intro again there truncated
  unfold Tracker.transmit at there
  cases found : t.half? id with
  | none =>
    rw [found] at there
    cases there
  | some h =>
    have half := reachable h (List.mem_of_getElem? found)
    rw [found] at there
    simp only [Half.transmit, Half.recordAt] at there
    cases known : Keyed.get? (Serial.distance (h.baseline.getD tsn) tsn) h.records with
    | none =>
      rw [known] at there
      cases there
    | some r =>
      rw [known] at there
      simp only at there
      split at there
      · cases there
      · rename_i later
        cases there
        obtain ⟨frames, recalls⟩ := half.recalls known
        have again : (r.again stamp cap).Recalls cap (frames ++ [stamp.frame]) := recalls.again
        rw [Record.again, if_neg later] at again
        -- Every later transmission has a higher frame number, so their count has 32 bits.
        have counted := again.counted
        have bound := (r.resent stamp cap).lastFrame.toNat_lt
        simp only [Record.retransmission, decide_eq_true_eq] at truncated
        omega

theorem acknowledge_eq {low high : Nat} (kind : AckKind) (forwards : low ≤ high) :
    acknowledge h low high stamp kind = some (h.acknowledge low high stamp kind) :=
  if_pos forwards

theorem cumulativeAck_eq (h : Half) (limits : AckLimits) (cumulative : UInt32) (stamp : Stamp) :
    cumulativeAck h limits cumulative stamp = some (h.cumulativeAck limits cumulative stamp) := by
  unfold cumulativeAck Half.cumulativeAck
  cases h.relative? cumulative with
  | none => rfl
  | some relative =>
    by_cases upper : 2147483648 ≤ relative
    · simp only [if_pos upper]
    -- Below half the circle the point after the acknowledged one still has 32 bits.
    · have added : advance h relative = some (h.advance relative) := by
        unfold advance Half.advance
        cases h.cumulative with
        | none => exact word_eq (by omega)
        | some point =>
          simp only
          split
          · rename_i behind
            rw [Nat.sub_eq_zero_of_le behind]
          · exact minus_eq (by omega)
      simp only [if_neg upper, added, Option.bind_eq_bind, Option.bind_some,
        acknowledge_eq .cumulative (Nat.sub_le relative (limits.span - 1))]
      split <;> rfl

theorem gapAck_eq (h : Half) (limits : AckLimits) (cumulative : UInt32) (block : GapBlock)
    (stamp : Stamp) (kind : AckKind) :
    gapAck h limits cumulative block stamp kind =
      some (h.gapAck limits cumulative block stamp kind) := by
  unfold gapAck Half.gapAck
  split
  · rfl
  · rename_i valid
    have forwards : block.start.toNat ≤ block.stop.toNat := by
      rw [UInt16.lt_iff_toNat_lt] at valid
      omega
    cases h.relative? cumulative with
    | none => rfl
    | some relative =>
      by_cases beyond : 4294967296 ≤ relative + block.stop.toNat
      · have outside : word (relative + block.stop.toNat) = none := if_neg (by omega)
        simp [outside, beyond]
      · have low := word_eq (show relative + block.start.toNat < 4294967296 by omega)
        have high := word_eq (show relative + block.stop.toNat < 4294967296 by omega)
        have ordered : relative + block.start.toNat ≤ relative + block.stop.toNat := by omega
        simp only [low, high, minus_eq ordered, acknowledge_eq kind ordered, beyond, false_or,
          Option.bind_eq_bind, Option.bind_some]
        split <;> rfl

theorem gapAcks_eq (limits : AckLimits) (cumulative : UInt32) (stamp : Stamp) (kind : AckKind)
    (h : Half) (blocks : List GapBlock) :
    gapAcks limits cumulative stamp kind h blocks =
      some (Half.gapAcks limits cumulative stamp kind h blocks) := by
  induction blocks generalizing h with
  | nil => rfl
  | cons block rest ih =>
    simp only [gapAcks, Half.gapAcks, gapAck_eq, ih, Option.bind_eq_bind, Option.bind_some]
    rfl

theorem applySack_eq (h : Half) (limits : AckLimits) (chunk : SackChunk) (stamp : Stamp) :
    applySack h limits chunk stamp = some (h.applySack limits chunk stamp) := by
  simp only [applySack, Half.applySack, cumulativeAck_eq, gapAcks_eq, Option.bind_eq_bind,
    Option.bind_some]
  rfl

theorem gapAckedCount_eq {sum : Nat} {blocks : List GapBlock}
    (fits : sum + 65536 * blocks.length < 4294967296) :
    gapAckedCount sum blocks =
      some (((blocks.filter blockIsValid).map blockSize).foldl (· + ·) sum) := by
  induction blocks generalizing sum with
  | nil => rfl
  | cons block rest ih =>
    rw [List.length_cons] at fits
    rw [gapAckedCount, List.filter_cons]
    split
    · rename_i valid
      have forwards : block.start.toNat ≤ block.stop.toNat := by
        simpa [blockIsValid, UInt16.le_iff_toNat_le] using valid
      -- One block counts at most 2 ^ 16 offsets.
      have bound := block.stop.toNat_lt
      have size : block.stop.toNat - block.start.toNat + 1 < 4294967296 := by omega
      have room : sum + (block.stop.toNat - block.start.toNat + 1) < 4294967296 := by omega
      simp only [minus_eq forwards, word_eq size, word_eq room, Option.bind_eq_bind,
        Option.bind_some]
      rw [ih (by omega), List.map_cons, List.foldl_cons, blockSize]
    · exact ih (by omega)

theorem sack_eq (t : Tracker) (acknowledged : Option Nat) (limits : AckLimits) {chunk : SackChunk}
    (few : chunk.gaps.length < 65536) (nonRenegable : Bool) (stamp : Stamp) :
    sack t acknowledged limits chunk nonRenegable stamp =
      some (t.sack acknowledged limits chunk nonRenegable stamp) := by
  have facts : ∀ acked, sackFacts limits chunk nonRenegable acked =
      some (Transmission.sackFacts limits chunk nonRenegable acked) := by
    intro acked
    rw [sackFacts, gapAckedCount_eq (by omega)]
    rfl
  unfold sack Tracker.sack
  cases acknowledged.bind fun id => (t.half? id).map fun h => (id, h) with
  | none => simp only [facts, Option.map_some]
  | some seat => simp only [applySack_eq, facts, Option.bind_eq_bind, Option.bind_some]; rfl

end

end SctpTrace.Guarded
