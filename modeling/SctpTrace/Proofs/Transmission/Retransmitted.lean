import SctpTrace.Proofs.Transmission.Recorded

/-!
What a retransmission tells. As long as frames come in order, the record of a TSN lists the first
stamp of every frame that carried it, up to the cap, and counts them all (`Record.Lists`). So every
transmission is told how often the TSN was carried before, whether the frame is retained or not
(`tells_transmit`).
-/
namespace SctpTrace.Transmission

def HalfEvent.stamp? (tsn : UInt32) : HalfEvent → Option Stamp
  | transmit t stamp => if t = tsn then some stamp else none
  | _ => none

def stampsOf (events : List HalfEvent) (tsn : UInt32) : List Stamp :=
  events.filterMap (HalfEvent.stamp? tsn)

theorem HalfEvent.carries?_eq (e : HalfEvent) (tsn : UInt32) :
    e.carries? tsn = (e.stamp? tsn).map (·.frame) := by
  cases e with
  | announce t => rfl
  | sack chunk nonRenegable stamp => rfl
  | transmit t stamp =>
    rw [carries?, stamp?]
    split <;> rfl

theorem framesOf_eq (events : List HalfEvent) (tsn : UInt32) :
    framesOf events tsn = (stampsOf events tsn).map (·.frame) := by
  rw [framesOf, stampsOf, List.map_filterMap]
  exact List.filterMap_congr fun e _ => e.carries?_eq tsn

def extend (known : List Stamp) (stamp : Stamp) : List Stamp :=
  if stamp.frame ∈ known.map (·.frame) then known else known ++ [stamp]

/-- The first stamp of each frame, in the order of the frames. -/
def openers (stamps : List Stamp) : List Stamp := stamps.foldl extend []

section Openers

variable {known stamps : List Stamp} {stamp : Stamp} {frame : FrameNumber}

@[simp] theorem openers_concat (stamps : List Stamp) (stamp : Stamp) :
    openers (stamps ++ [stamp]) = extend (openers stamps) stamp :=
  List.foldl_append

theorem mem_frames_extend : frame ∈ (extend known stamp).map (·.frame) ↔
    frame ∈ known.map (·.frame) ∨ frame = stamp.frame := by
  unfold extend
  split
  · rename_i old
    refine ⟨Or.inl, ?_⟩
    rintro (there | rfl)
    · exact there
    · exact old
  · rw [List.map_append, List.mem_append, List.map_singleton, List.mem_singleton]

theorem nodup_frames_extend (distinct : (known.map (·.frame)).Nodup) :
    ((extend known stamp).map (·.frame)).Nodup := by
  unfold extend
  split
  · exact distinct
  · rename_i new
    rw [List.map_append, List.map_singleton, ← List.concat_eq_append]
    exact distinct.concat new

theorem mem_frames_openers : frame ∈ (openers stamps).map (·.frame) ↔
    frame ∈ stamps.map (·.frame) := by
  induction stamps using List.reverseRecOn with
  | nil => exact Iff.rfl
  | append_singleton stamps stamp ih =>
    rw [openers_concat, mem_frames_extend, ih, List.map_append, List.mem_append, List.map_singleton,
      List.mem_singleton]

theorem nodup_frames_openers (stamps : List Stamp) : ((openers stamps).map (·.frame)).Nodup := by
  induction stamps using List.reverseRecOn with
  | nil => exact List.nodup_nil
  | append_singleton stamps stamp ih =>
    rw [openers_concat]
    exact nodup_frames_extend ih

theorem head?_extend (known : List Stamp) (stamp : Stamp) :
    (extend known stamp).head? = known.head?.or (some stamp) := by
  unfold extend
  split
  · rename_i old
    cases known with
    | nil => cases old
    | cons first rest => rfl
  · exact List.head?_append

theorem head?_openers (stamps : List Stamp) : (openers stamps).head? = stamps.head? := by
  induction stamps using List.reverseRecOn with
  | nil => rfl
  | append_singleton stamps stamp ih =>
    rw [openers_concat, head?_extend, ih, List.head?_append]
    rfl

theorem length_openers (stamps : List Stamp) :
    (openers stamps).length = (stamps.map (·.frame)).dedup.length := by
  have same : ((openers stamps).map (·.frame)).Perm (stamps.map (·.frame)).dedup := by
    rw [List.perm_ext_iff_of_nodup (nodup_frames_openers stamps) (List.nodup_dedup _)]
    intro frame
    rw [mem_frames_openers, List.mem_dedup]
  rw [← List.length_map, same.length_eq]

end Openers

namespace Record

/-- The record lists the stamps of the frames that carried its TSN. -/
structure Lists (cap : Nat) (stamps : List Stamp) (r : Record) : Prop where
  first : stamps.head? = some r.first
  retained : r.retransmissions = stamps.tail.take cap
  count : r.retransmissionCount + 1 = stamps.length
  last : stamps.getLast?.map (·.frame) = some r.lastFrame
  ordered : (stamps.map (·.frame)).Pairwise (· < ·)

variable {r after : Record} {cap : Nat} {stamps : List Stamp} {stamp : Stamp} {tsn : UInt32}

theorem lists_sent : (Record.sent tsn stamp).Lists cap [stamp] :=
  ⟨rfl, (List.take_nil).symm, rfl, rfl, List.pairwise_singleton _ _⟩

theorem Lists.acks (lists : r.Lists cap stamps) (acks : r.Acks stamp after) :
    after.Lists cap stamps := by
  rcases acks with rfl | ⟨-, rfl⟩
  · exact lists
  · exact ⟨lists.first, lists.retained, lists.count, lists.last, lists.ordered⟩

theorem Lists.cons (lists : r.Lists cap stamps) : stamps = r.first :: stamps.tail :=
  (List.cons_head?_tail lists.first).symm

theorem Lists.concat (lists : r.Lists cap stamps) :
    ∃ earlier last, stamps = earlier ++ [last] ∧ last.frame = r.lastFrame := by
  obtain ⟨last, found, frame⟩ := Option.map_eq_some_iff.mp lists.last
  obtain ⟨earlier, split⟩ := List.getLast?_eq_some_iff.mp found
  exact ⟨earlier, last, split, frame⟩

theorem Lists.le_last (lists : r.Lists cap stamps) {frame : FrameNumber}
    (there : frame ∈ stamps.map (·.frame)) : frame ≤ r.lastFrame := by
  obtain ⟨earlier, last, rfl, frameLast⟩ := lists.concat
  have ordered := lists.ordered
  rw [List.map_append, List.pairwise_append] at ordered
  rw [List.map_append, List.mem_append] at there
  rcases there with early | late
  · exact frameLast ▸ UInt32.le_of_lt (ordered.2.2 frame early last.frame List.mem_cons_self)
  · rw [List.map_singleton, List.mem_singleton] at late
    rw [late, frameLast]
    exact UInt32.le_refl _

/-- A frame that does not come before the last one is known exactly if it is the last one. -/
theorem Lists.known_iff (lists : r.Lists cap stamps) (late : r.lastFrame ≤ stamp.frame) :
    stamp.frame ∈ stamps.map (·.frame) ↔ stamp.frame = r.lastFrame := by
  constructor
  · exact fun there => UInt32.le_antisymm (lists.le_last there) late
  · intro same
    obtain ⟨earlier, last, rfl, frame⟩ := lists.concat
    rw [same, ← frame]
    exact List.mem_map_of_mem (List.mem_append_right _ List.mem_cons_self)

theorem Lists.place?_of_new (lists : r.Lists cap stamps) (new : r.lastFrame < stamp.frame) :
    r.place? stamp.frame = none := by
  rw [Record.place?, List.findIdx?_eq_none_iff, lists.retained]
  intro s there
  have known : s.frame ∈ stamps.map (·.frame) :=
    List.mem_map_of_mem (List.mem_of_mem_tail (List.mem_of_mem_take there))
  have before := UInt32.lt_of_le_of_lt (lists.le_last known) new
  exact beq_eq_false_iff_ne.mpr (UInt32.ne_of_lt before)

theorem Lists.place?_last (lists : r.Lists cap stamps) (later : r.first.frame ≠ r.lastFrame) :
    r.place? r.lastFrame =
      if r.retransmissionCount ≤ cap then some (r.retransmissionCount - 1) else none := by
  obtain ⟨earlier, last, split, frame⟩ := lists.concat
  have count := lists.count
  have ordered := lists.ordered
  have first := lists.first
  rw [Record.place?, lists.retained]
  subst split
  cases earlier with
  | nil =>
    cases first
    exact absurd frame later
  | cons first others =>
    have missed : ∀ s ∈ others, (s.frame == r.lastFrame) = false := by
      intro s there
      rw [List.map_append, List.pairwise_append] at ordered
      have before := ordered.2.2 s.frame (List.mem_map_of_mem (List.mem_cons_of_mem _ there))
        last.frame List.mem_cons_self
      exact beq_eq_false_iff_ne.mpr (frame ▸ UInt32.ne_of_lt before)
    simp only [List.cons_append, List.length_cons, List.length_append, List.length_nil] at count
    rw [List.cons_append, List.tail_cons]
    split
    · rename_i fits
      rw [List.take_of_length_le (by simp; omega), List.findIdx?_append,
        List.findIdx?_eq_none_iff.mpr missed]
      simp only [List.findIdx?_singleton, frame, beq_self_eq_true, ↓reduceIte, Option.map_some,
        Option.none_or, Option.some.injEq]
      omega
    · rename_i full
      rw [List.take_append_of_le_length (by omega), List.findIdx?_eq_none_iff]
      exact fun s there => missed s (List.mem_of_mem_take there)

theorem resent_of_last (last : stamp.frame = r.lastFrame) : r.resent stamp cap = r := by
  have uncounted : ¬ r.counts stamp.frame = true := by
    simp [Record.counts, last]
  rw [Record.resent, if_neg uncounted]

theorem Lists.resent_of_new (lists : r.Lists cap stamps) (new : r.lastFrame < stamp.frame) :
    (r.resent stamp cap).Lists cap (stamps ++ [stamp]) := by
  have counted : r.counts stamp.frame = true := by
    simp [Record.counts, lists.place?_of_new new, new]
  have some : stamps ≠ [] := by
    rw [lists.cons]
    exact List.cons_ne_nil _ _
  rw [Record.resent, if_pos counted]
  refine ⟨?first, ?retained, ?count, ?last, ?ordered⟩
  case first =>
    rw [List.head?_append, lists.first]
    rfl
  case retained =>
    rw [List.tail_append_of_ne_nil some, lists.retained, List.length_take]
    simp only
    split
    · have whole : (stamps.tail ++ [stamp]).length ≤ cap := by
        rw [List.length_append, List.length_singleton]
        omega
      rw [List.take_of_length_le whole, List.take_of_length_le (by omega)]
    · rw [List.take_append_of_le_length (by omega)]
  case count => simp only [List.length_append, List.length_singleton, lists.count]
  case last =>
    rw [List.getLast?_concat]
    rfl
  case ordered =>
    rw [List.map_append, List.pairwise_append]
    refine ⟨lists.ordered, List.pairwise_singleton _ _, ?_⟩
    intro frame there last isNew
    rw [List.map_singleton, List.mem_singleton] at isNew
    rw [isNew]
    exact UInt32.lt_of_le_of_lt (lists.le_last there) new

theorem Lists.resent (lists : r.Lists cap stamps) (late : r.lastFrame ≤ stamp.frame) :
    (r.resent stamp cap).Lists cap (extend stamps stamp) := by
  unfold extend
  split
  · rename_i known
    rw [resent_of_last ((lists.known_iff late).mp known)]
    exact lists
  · rename_i unknown
    exact lists.resent_of_new
      (UInt32.lt_of_le_of_ne late fun same => unknown ((lists.known_iff late).mpr same.symm))

theorem Lists.again (lists : r.Lists cap stamps) (late : r.lastFrame ≤ stamp.frame) :
    (r.again stamp cap).Lists cap (extend stamps stamp) := by
  unfold Record.again
  split
  · rename_i same
    have known : stamp.frame ∈ stamps.map (·.frame) := by
      rw [← same, lists.cons]
      exact List.mem_cons_self
    rw [extend, if_pos known]
    exact lists
  · exact lists.resent late

theorem Lists.count_pos (lists : r.Lists cap stamps) (later : r.first.frame ≠ r.lastFrame) :
    0 < r.retransmissionCount := by
  have count := lists.count
  by_contra none
  obtain ⟨only, single⟩ := List.length_eq_one_iff.mp (show stamps.length = 1 by omega)
  have first := lists.first
  have last := lists.last
  rw [single] at first last
  cases first
  exact later (Option.some.inj last)

/-- The count is the same, whether it is read off the retained frames or off the counter. -/
theorem Lists.count_retransmission (lists : r.Lists cap stamps) (late : r.lastFrame ≤ stamp.frame)
    (other : r.first.frame ≠ stamp.frame) :
    (r.retransmission stamp cap).count = (r.resent stamp cap).retransmissionCount := by
  rw [Record.retransmission]
  by_cases last : stamp.frame = r.lastFrame
  · have later : r.first.frame ≠ r.lastFrame := last ▸ other
    rw [resent_of_last last, last, lists.place?_last later]
    by_cases fits : r.retransmissionCount ≤ cap
    · rw [if_pos fits]
      exact Nat.sub_add_cancel (lists.count_pos later)
    · rw [if_neg fits]
  · have new := UInt32.lt_of_le_of_ne late (Ne.symm last)
    rw [lists.place?_of_new new]

end Record

/-- What a retransmission is told when its TSN came with these stamps, its own last. -/
structure Retransmission.Exact (cap : Nat) (stamps : List Stamp) (stamp : Stamp)
    (ack : Option Stamp) (told : Retransmission) : Prop where
  original : stamps.head? = some told.first
  count : told.count + 1 = (stamps.map (·.frame)).dedup.length
  truncated : told.historyTruncated = true ↔ cap < told.count
  afterAck : ∀ frame, told.afterAckIn = some frame ↔
    ∃ a, ack = some a ∧ a.frame = frame ∧ frame < stamp.frame

namespace Record

variable {r : Record} {cap : Nat} {stamps : List Stamp} {stamp : Stamp}

theorem ackBefore?_eq_some_iff {frame before : FrameNumber} : r.ackBefore? frame = some before ↔
    ∃ a, r.ack = some a ∧ a.frame = before ∧ before < frame := by
  rw [ackBefore?]
  cases r.ack with
  | none => simp
  | some ack =>
    simp only [Option.some.injEq, exists_eq_left']
    split
    · rename_i earlier
      rw [Option.some.injEq]
      exact ⟨fun same => ⟨same, same ▸ earlier⟩, And.left⟩
    · rename_i notEarlier
      constructor
      · rintro ⟨⟩
      · rintro ⟨rfl, earlier⟩
        exact absurd earlier notEarlier

theorem Lists.exact (lists : r.Lists cap (openers stamps)) (late : r.lastFrame ≤ stamp.frame)
    (other : r.first.frame ≠ stamp.frame) :
    (r.retransmission stamp cap).Exact cap (stamps ++ [stamp]) stamp r.ack := by
  have count := lists.count_retransmission late other
  refine ⟨?_, ?_, ?_, fun frame => ackBefore?_eq_some_iff⟩
  · rw [List.head?_append, ← head?_openers, lists.first]
    rfl
  · rw [count, (lists.resent late).count, ← openers_concat, length_openers]
  · rw [count]
    exact decide_eq_true_iff

end Record

namespace Half

variable {h : Half} {limits : AckLimits} {cap : Nat} {tsn t : UInt32} {stamp : Stamp}
  {stamps : List Stamp} {before events : List HalfEvent}

structure Remembers (cap : Nat) (tsn : UInt32) (stamps : List Stamp) (h : Half) : Prop where
  founded : h.Founded
  unseen : h.record? tsn = none → stamps = []
  known : ∀ r, h.record? tsn = some r → r.Lists cap (openers stamps)

theorem remembers_new (flow : Flow) : (new flow).Remembers cap tsn [] := by
  refine ⟨founded_new flow, fun _ => rfl, ?_⟩
  intro r found
  cases found

theorem Remembers.le_of_known {r : Record} (remembers : h.Remembers cap tsn stamps)
    (found : h.record? tsn = some r) (late : ∀ s ∈ stamps, s.frame ≤ stamp.frame) :
    r.lastFrame ≤ stamp.frame := by
  obtain ⟨earlier, last, split, frame⟩ := (remembers.known r found).concat
  have there : last.frame ∈ (openers stamps).map (·.frame) := by
    rw [split]
    exact List.mem_map_of_mem (List.mem_append_right _ List.mem_cons_self)
  obtain ⟨s, member, same⟩ := List.mem_map.mp (mem_frames_openers.mp there)
  rw [← frame, ← same]
  exact late s member

theorem Remembers.announce (remembers : h.Remembers cap tsn stamps) :
    (h.setBaseline t).1.Remembers cap tsn stamps := by
  refine ⟨keeps_setBaseline.founded remembers.founded, ?_, ?_⟩
  · rw [record?_setBaseline remembers.founded]
    exact remembers.unseen
  · rw [record?_setBaseline remembers.founded]
    exact remembers.known

theorem Remembers.sack (remembers : h.Remembers cap tsn stamps) (chunk : Wire.SackChunk)
    (nonRenegable : Bool) :
    (h.sack limits chunk nonRenegable stamp).1.Remembers cap tsn stamps := by
  have step := record?_sack h limits stamp chunk nonRenegable tsn
  refine ⟨(keeps_sack chunk nonRenegable).founded remembers.founded, ?_, ?_⟩
  · intro absent
    rw [absent] at step
    generalize before : h.record? tsn = old at step
    cases step
    exact remembers.unseen before
  · intro r found
    rw [found] at step
    generalize before : h.record? tsn = old at step
    cases step with
    | some acks => exact (remembers.known _ before).acks acks

theorem Remembers.other (remembers : h.Remembers cap tsn stamps) (other : t ≠ tsn) :
    (h.transmit t stamp cap).1.Remembers cap tsn stamps := by
  have same : (h.transmit t stamp cap).1.record? tsn = h.record? tsn := by
    rw [record?_transmit remembers.founded, if_neg (Ne.symm other)]
  refine ⟨founded_transmit, ?_, ?_⟩
  · rw [same]
    exact remembers.unseen
  · rw [same]
    exact remembers.known

theorem Remembers.transmit (remembers : h.Remembers cap tsn stamps)
    (late : ∀ s ∈ stamps, s.frame ≤ stamp.frame) :
    (h.transmit tsn stamp cap).1.Remembers cap tsn (stamps ++ [stamp]) := by
  have record : (h.transmit tsn stamp cap).1.record? tsn =
      some (((h.record? tsn).map (·.again stamp cap)).getD (.sent tsn stamp)) := by
    rw [record?_transmit remembers.founded, if_pos rfl]
  refine ⟨founded_transmit, ?_, ?_⟩
  · rw [record]
    intro absent
    cases absent
  · rw [record, openers_concat]
    rintro r ⟨⟩
    cases found : h.record? tsn with
    | none =>
      rw [remembers.unseen found]
      exact Record.lists_sent
    | some old =>
      exact (remembers.known old found).again (remembers.le_of_known found late)

theorem Remembers.linked (remembers : h.Remembers cap tsn stamps) (peer : Option Nat) :
    Half.Remembers cap tsn stamps { h with peer := peer } :=
  ⟨remembers.founded, remembers.unseen, remembers.known⟩

theorem stampsOf_concat (events : List HalfEvent) (e : HalfEvent) (tsn : UInt32) :
    stampsOf (events ++ [e]) tsn = stampsOf events tsn ++ (e.stamp? tsn).toList := by
  rw [stampsOf, List.filterMap_append, stampsOf, List.filterMap_cons]
  cases e.stamp? tsn <;> rfl

theorem Remembers.step (remembers : h.Remembers cap tsn stamps) (e : HalfEvent)
    (late : ∀ stamp ∈ e.stamp? tsn, ∀ s ∈ stamps, s.frame ≤ stamp.frame) :
    (h.step limits cap e).Remembers cap tsn (stamps ++ (e.stamp? tsn).toList) := by
  cases e with
  | announce t =>
    change (h.setBaseline t).1.Remembers cap tsn (stamps ++ [])
    rw [List.append_nil]
    exact remembers.announce
  | sack chunk nonRenegable stamp =>
    change (h.sack limits chunk nonRenegable stamp).1.Remembers cap tsn (stamps ++ [])
    rw [List.append_nil]
    exact remembers.sack chunk nonRenegable
  | transmit t stamp =>
    simp only [HalfEvent.stamp?] at late ⊢
    by_cases own : t = tsn
    · rw [if_pos own] at late ⊢
      subst own
      exact remembers.transmit (late stamp rfl)
    · rw [if_neg own, Option.toList_none, List.append_nil]
      exact remembers.other own

theorem remembers_follow (flow : Flow) (limits : AckLimits) (cap : Nat) (tsn : UInt32)
    (ordered : (stampsOf events tsn).Pairwise fun s s' => s.frame ≤ s'.frame) :
    ((new flow).follow limits cap events).Remembers cap tsn (stampsOf events tsn) := by
  induction events using List.reverseRecOn with
  | nil => exact remembers_new flow
  | append_singleton events e ih =>
    rw [stampsOf_concat, List.pairwise_append] at ordered
    rw [stampsOf_concat, follow_append]
    refine (ih ordered.1).step e ?_
    intro stamp now s there
    exact ordered.2.2 s there stamp (Option.mem_toList.mpr now)

theorem retransmission_transmit (founded : h.Founded) :
    (h.transmit tsn stamp cap).2.retransmission = (h.record? tsn).bind fun r =>
      if r.first.frame = stamp.frame then none else some (r.retransmission stamp cap) := by
  rw [record?_eq tsn founded]
  simp only [Half.transmit, recordAt]
  cases Keyed.get? (Serial.distance (h.baseline.getD tsn) tsn) h.records with
  | none => rfl
  | some r =>
    simp only [Option.bind_some]
    split <;> rfl

structure Tells (cap : Nat) (tsn : UInt32) (stamps : List Stamp) (stamp : Stamp) (h : Half)
    (after : Half × Outcome) : Prop where
  first : after.2.retransmission = none ↔ stamps.head?.map (·.frame) = some stamp.frame
  told : ∀ told, after.2.retransmission = some told →
    told.Exact cap stamps stamp ((h.record? tsn).bind (·.ack))
  kept : ∃ r, after.1.record? tsn = some r ∧ stamps.head? = some r.first ∧
    r.retransmissions =
      (openers stamps).tail.take (min ((stamps.map (·.frame)).dedup.length - 1) cap)

theorem Remembers.kept (remembers : h.Remembers cap tsn (stamps ++ [stamp])) :
    ∃ r, h.record? tsn = some r ∧ (stamps ++ [stamp]).head? = some r.first ∧
      r.retransmissions = (openers (stamps ++ [stamp])).tail.take
        (min (((stamps ++ [stamp]).map (·.frame)).dedup.length - 1) cap) := by
  cases found : h.record? tsn with
  | none => exact absurd (remembers.unseen found) (List.concat_ne_nil stamp stamps)
  | some r =>
    have lists := remembers.known r found
    refine ⟨r, rfl, by rw [← head?_openers, lists.first], ?_⟩
    rw [lists.retained, ← length_openers, List.take_eq_take_iff, List.length_tail]
    omega

theorem Remembers.tells (remembers : h.Remembers cap tsn stamps)
    (late : ∀ s ∈ stamps, s.frame ≤ stamp.frame) :
    h.Tells cap tsn (stamps ++ [stamp]) stamp (h.transmit tsn stamp cap) := by
  refine ⟨?_, ?_, (remembers.transmit late).kept⟩
  · rw [retransmission_transmit remembers.founded]
    cases found : h.record? tsn with
    | none =>
      rw [remembers.unseen found]
      exact ⟨fun _ => rfl, fun _ => rfl⟩
    | some r =>
      rw [List.head?_append, ← head?_openers, (remembers.known r found).first]
      simp
  · intro told retransmitted
    rw [retransmission_transmit remembers.founded] at retransmitted
    obtain ⟨r, found, told⟩ := Option.bind_eq_some_iff.mp retransmitted
    rw [found, Option.bind_some]
    split at told
    · cases told
    · rename_i other
      cases told
      exact (remembers.known r found).exact (remembers.le_of_known found late) other

theorem frames_sublist (events : List HalfEvent) (tsn : UInt32) :
    ((stampsOf events tsn).map (·.frame)).Sublist (events.filterMap HalfEvent.sentIn?) := by
  induction events with
  | nil => exact List.Sublist.slnil
  | cons e rest ih =>
    cases e with
    | announce t => exact ih
    | sack chunk nonRenegable stamp => exact ih
    | transmit t stamp =>
      rw [stampsOf, List.filterMap_cons, HalfEvent.stamp?]
      by_cases own : t = tsn
      · rw [if_pos own]
        exact ih.cons_cons stamp.frame
      · rw [if_neg own]
        exact ih.cons stamp.frame

/-- Every transmission of a run in which frames never go back. -/
theorem tells_transmit (flow : Flow) (limits : AckLimits) (cap : Nat)
    (ordered : ((before ++ [HalfEvent.transmit tsn stamp]).filterMap
      HalfEvent.sentIn?).Pairwise (· ≤ ·)) :
    let h := (new flow).follow limits cap before
    h.Tells cap tsn (stampsOf (before ++ [.transmit tsn stamp]) tsn) stamp
      (h.transmit tsn stamp cap) := by
  have inOrder := List.pairwise_map.mp (ordered.sublist (frames_sublist _ tsn))
  have now : (HalfEvent.transmit tsn stamp).stamp? tsn = some stamp := if_pos rfl
  rw [stampsOf_concat, now, Option.toList_some] at inOrder ⊢
  obtain ⟨earlier, -, late⟩ := List.pairwise_append.mp inOrder
  exact (remembers_follow flow limits cap tsn earlier).tells fun s there =>
    late s there stamp List.mem_cons_self

/-- One TSN in three frames, and twice in two of them; the SACK comes after the first frame. -/
def threeFrames : List HalfEvent :=
  [.transmit 10 ⟨1, ⟨1, 0⟩⟩, .transmit 10 ⟨1, ⟨1, 0⟩⟩,
    .sack ⟨10, 1500, [], [], []⟩ false ⟨2, ⟨2, 0⟩⟩, .transmit 10 ⟨3, ⟨3, 0⟩⟩,
    .transmit 11 ⟨4, ⟨4, 0⟩⟩, .transmit 10 ⟨5, ⟨5, 0⟩⟩]

theorem tells_transmit_past_the_cap :
    let h := (new ⟨0, .forward⟩).follow ⟨5000, 100⟩ 1 threeFrames
    let stamp : Stamp := ⟨5, ⟨5, 0⟩⟩
    h.Tells 1 10 (stampsOf (threeFrames ++ [.transmit 10 stamp]) 10) stamp
        (h.transmit 10 stamp 1) ∧
      (h.transmit 10 stamp 1).2.retransmission =
        some ⟨⟨1, ⟨1, 0⟩⟩, some ⟨4, 0⟩, 2, some 2, true, false⟩ :=
  ⟨tells_transmit ⟨0, .forward⟩ ⟨5000, 100⟩ 1 (by decide), by decide⟩

end Half

end SctpTrace.Transmission
