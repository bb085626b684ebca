import Mathlib.Data.List.Pairwise
import SctpTrace.Proofs.Keyed
import SctpTrace.Proofs.Reassembly.Calls

/-!
What a search for a message is answered. In every store it is one of three things (`Decided`): a
message that was completed around the position before, a message that the waiting fragments around
it make, or nothing. There is at most one such message to make, and its ends are the only fragments
in it that open or close one.
-/
namespace SctpTrace.Reassembly

open Serial

namespace Fragments

/-- The fragments of a run around a position all wait. The one at the front alone opens a message,
and the one at the end alone closes it. -/
structure Encloses (s : Fragments) (run : Run) (t : UInt32) : Prop where
  between : t ∈ arc run.first run.last
  each : ∀ p ∈ arc run.first run.last, ∃ f, s.fragment? p = some f ∧ f.isConsumed = false ∧
    (f.isFirst = true ↔ p = run.first) ∧ (f.isLast = true ↔ p = run.last)

def Finished (s : Fragments) (t : UInt32) : Prop := ∃ m ∈ s.completed, t ∈ arc m.first m.last

inductive Attempted (s : Fragments) (t : UInt32) (frame : FrameNumber) :
    Fragments × Attempt → Prop where
  | again {m : Message} (member : m ∈ s.completed) (inside : t ∈ arc m.first m.last)
      (own : m.completedIn = frame) : Attempted s t frame (s, .again m)
  | partOf {m : Message} (member : m ∈ s.completed) (inside : t ∈ arc m.first m.last)
      (other : m.completedIn ≠ frame) : Attempted s t frame (s, .partOf m.completedIn)
  | completed {run : Run} (unfinished : ¬ s.Finished t) (encloses : s.Encloses run t) :
      Attempted s t frame (s.assemble run frame, .completed (s.message run frame))
  | awaiting (unfinished : ¬ s.Finished t) (nothing : ∀ run, ¬ s.Encloses run t) :
      Attempted s t frame (s, .awaitingMore)

variable {arrivals : List Arrival} {s : Fragments} {t : UInt32} {frame : FrameNumber} {run : Run}
  {m other : Message}

theorem Encloses.whole (encloses : s.Encloses run t) : run.Whole s.waiting? := by
  intro k inside
  obtain ⟨f, here, fresh, opens, closes⟩ :=
    encloses.each _ (Run.mem_arc_iff.mpr (Run.covers_forward inside))
  rw [Run.forward_eq_first_iff inside] at opens
  rw [Run.forward_eq_last_iff inside] at closes
  have first : f.isFirst = (k == 0) := by rw [Bool.eq_iff_iff, opens, beq_iff_eq]
  have last : f.isLast = (k + 1 == run.length) := by rw [Bool.eq_iff_iff, closes, beq_iff_eq]
  rw [waiting?, here, Option.bind_some, fresh, first, last]
  rfl

theorem encloses_iff : s.Encloses run t ↔ run.Whole s.waiting? ∧ run.covers t = true := by
  constructor
  · exact fun encloses => ⟨encloses.whole, Run.mem_arc_iff.mp encloses.between⟩
  · rintro ⟨whole, around⟩
    refine ⟨Run.mem_arc_iff.mpr around, fun p member => ?_⟩
    have inside := Run.covers_iff.mp (Run.mem_arc_iff.mp member)
    obtain ⟨f, here, fresh, edges⟩ := fragment?_of_waiting? (whole _ inside)
    rw [Edges.mk.injEq] at edges
    have first := Run.forward_eq_first_iff inside
    have last := Run.forward_eq_last_iff inside
    rw [forward_distance] at here first last
    refine ⟨f, here, fresh, ?_, ?_⟩
    · rw [← edges.1, beq_iff_eq, first]
    · rw [← edges.2, beq_iff_eq, last]

theorem Encloses.unique {run other : Run} (encloses : s.Encloses run t)
    (enclosesToo : s.Encloses other t) : run = other :=
  Run.whole_unique encloses.whole (Run.mem_arc_iff.mp encloses.between) enclosesToo.whole
    (Run.mem_arc_iff.mp enclosesToo.between)

theorem Marked.attempted (marked : s.Marked) (t : UInt32) (frame : FrameNumber) :
    s.Attempted t frame (s.reassemble t frame) := by
  unfold Fragments.reassemble
  split
  · rename_i m found
    have member := List.mem_of_find?_eq_some found
    have inside : m.contains t = true := by simpa using List.find?_some found
    rw [Message.contains, onArc_iff_mem] at inside
    split
    · rename_i own
      exact .again member inside own
    · rename_i other
      exact .partOf member inside other
  · rename_i absent
    have unfinished : ¬ s.Finished t := by
      rintro ⟨m, member, inside⟩
      exact List.find?_eq_none.mp absent m member (onArc_iff_mem.mpr inside)
    split
    · rename_i nothing
      refine .awaiting unfinished fun run encloses => ?_
      rw [(runAround?_eq_some_iff marked).mpr (encloses_iff.mp encloses)] at nothing
      cases nothing
    · rename_i run found
      exact .completed unfinished (encloses_iff.mpr ((runAround?_eq_some_iff marked).mp found))

theorem Consistent.eq_of_mem_arc (consistent : Consistent arrivals s) (member : m ∈ s.completed)
    (memberToo : other ∈ s.completed) (inside : t ∈ arc m.first m.last)
    (insideToo : t ∈ arc other.first other.last) : m = other := by
  have symmetric : Std.Symm fun m other : Message =>
      ∀ t, m.contains t = true → other.contains t = false := by
    refine ⟨fun m other apart t there => Bool.eq_false_iff.mpr fun here => ?_⟩
    rw [apart t here] at there
    cases there
  by_contra different
  have outside := consistent.apart.forall member memberToo different t (onArc_iff_mem.mpr inside)
  rw [Message.contains, onArc_iff_mem.mpr insideToo] at outside
  cases outside

section Answers

variable (consistent : Consistent arrivals s)

include consistent

theorem Consistent.again_iff : (s.reassemble t frame).2 = .again m ↔
    m ∈ s.completed ∧ t ∈ arc m.first m.last ∧ m.completedIn = frame := by
  have attempted := consistent.marked.attempted t frame
  generalize s.reassemble t frame = outcome at attempted ⊢
  cases attempted with
  | @again found member inside own =>
    constructor
    · rintro ⟨⟩
      exact ⟨member, inside, own⟩
    · rintro ⟨there, around, -⟩
      rw [consistent.eq_of_mem_arc member there inside around]
  | @partOf found member inside other =>
    refine iff_of_false (by simp) ?_
    rintro ⟨there, around, own⟩
    rw [consistent.eq_of_mem_arc member there inside around] at other
    exact other own
  | completed unfinished encloses =>
    exact iff_of_false (by simp) fun ⟨there, around, _⟩ => unfinished ⟨m, there, around⟩
  | awaiting unfinished nothing =>
    exact iff_of_false (by simp) fun ⟨there, around, _⟩ => unfinished ⟨m, there, around⟩

theorem Consistent.partOf_iff {earlier : FrameNumber} :
    (s.reassemble t frame).2 = .partOf earlier ↔
      earlier ≠ frame ∧ ∃ m ∈ s.completed, t ∈ arc m.first m.last ∧ m.completedIn = earlier := by
  have attempted := consistent.marked.attempted t frame
  generalize s.reassemble t frame = outcome at attempted ⊢
  cases attempted with
  | @again found member inside own =>
    refine iff_of_false (by simp) ?_
    rintro ⟨other, m, there, around, rfl⟩
    rw [consistent.eq_of_mem_arc member there inside around] at own
    exact other own
  | @partOf found member inside other =>
    constructor
    · rintro ⟨⟩
      exact ⟨other, found, member, inside, rfl⟩
    · rintro ⟨-, m, there, around, rfl⟩
      rw [consistent.eq_of_mem_arc member there inside around]
  | completed unfinished encloses =>
    exact iff_of_false (by simp) fun ⟨_, m, there, around, _⟩ => unfinished ⟨m, there, around⟩
  | awaiting unfinished nothing =>
    exact iff_of_false (by simp) fun ⟨_, m, there, around, _⟩ => unfinished ⟨m, there, around⟩

end Answers

variable (marked : s.Marked)

include marked

theorem Marked.completed_iff : (∃ m, (s.reassemble t frame).2 = .completed m) ↔
    ¬ s.Finished t ∧ ∃ run, s.Encloses run t := by
  have attempted := marked.attempted t frame
  generalize s.reassemble t frame = outcome at attempted ⊢
  cases attempted with
  | again member inside own =>
    exact iff_of_false (by simp) fun ⟨unfinished, _⟩ => unfinished ⟨_, member, inside⟩
  | partOf member inside other =>
    exact iff_of_false (by simp) fun ⟨unfinished, _⟩ => unfinished ⟨_, member, inside⟩
  | completed unfinished encloses => exact iff_of_true ⟨_, rfl⟩ ⟨unfinished, _, encloses⟩
  | awaiting unfinished nothing =>
    exact iff_of_false (by simp) fun ⟨_, run, encloses⟩ => nothing run encloses

theorem Marked.awaiting_iff : (s.reassemble t frame).2 = .awaitingMore ↔
    ¬ s.Finished t ∧ ∀ run, ¬ s.Encloses run t := by
  have attempted := marked.attempted t frame
  generalize s.reassemble t frame = outcome at attempted ⊢
  cases attempted with
  | again member inside own =>
    exact iff_of_false (by simp) fun ⟨unfinished, _⟩ => unfinished ⟨_, member, inside⟩
  | partOf member inside other =>
    exact iff_of_false (by simp) fun ⟨unfinished, _⟩ => unfinished ⟨_, member, inside⟩
  | completed unfinished encloses =>
    exact iff_of_false (by simp) fun ⟨_, nothing⟩ => nothing _ encloses
  | awaiting unfinished nothing => exact iff_of_true rfl ⟨unfinished, nothing⟩

theorem Marked.of_completed (completed : (s.reassemble t frame).2 = .completed m) :
    s.Encloses m.run t ∧ m.completedIn = frame ∧
      (s.reassemble t frame).1.completed = s.completed ++ [m] := by
  have attempted := marked.attempted t frame
  generalize s.reassemble t frame = outcome at attempted completed ⊢
  cases attempted with
  | again => cases completed
  | partOf => cases completed
  | completed unfinished encloses =>
    cases completed
    exact ⟨encloses, rfl, rfl⟩
  | awaiting => cases completed

theorem Marked.unchanged (other : ∀ m, (s.reassemble t frame).2 ≠ .completed m) :
    (s.reassemble t frame).1 = s := by
  have attempted := marked.attempted t frame
  generalize s.reassemble t frame = outcome at attempted other ⊢
  cases attempted with
  | again => rfl
  | partOf => rfl
  | completed => exact absurd rfl (other _)
  | awaiting => rfl

end Fragments

namespace Store

variable {s : Store} {key other : MessageKey} {t : UInt32} {frame : FrameNumber}

theorem answer_reassemble :
    (s.reassemble key t frame).2 = ((s.held key).reassemble t frame).2 := by
  unfold reassemble held
  cases s.fragments? key <;> rfl

theorem held_reassemble : (s.reassemble key t frame).1.held other =
    if key = other then ((s.held key).reassemble t frame).1 else s.held other :=
  held_call (.search t frame)

theorem reassemble_of_same (same : ((s.held key).reassemble t frame).1 = s.held key) :
    (s.reassemble key t frame).1 = s := by
  unfold reassemble
  cases known : s.fragments? key with
  | none => rfl
  | some fragments =>
    have here : s.held key = fragments := by rw [held, known, Option.getD_some]
    rw [here] at same
    simp only [same]
    rw [Keyed.put_of_get?_eq_some known]

structure Decided (s : Store) (key : MessageKey) (t : UInt32) (frame : FrameNumber) : Prop where
  again_iff : ∀ m, (s.reassemble key t frame).2 = .again m ↔
    m ∈ (s.held key).completed ∧ t ∈ arc m.first m.last ∧ m.completedIn = frame
  partOf_iff : ∀ earlier, (s.reassemble key t frame).2 = .partOf earlier ↔ earlier ≠ frame ∧
    ∃ m ∈ (s.held key).completed, t ∈ arc m.first m.last ∧ m.completedIn = earlier
  completed_iff : (∃ m, (s.reassemble key t frame).2 = .completed m) ↔
    ¬ (s.held key).Finished t ∧ ∃ run, (s.held key).Encloses run t
  /-- At most one message can be made, and it is the one that is. -/
  unique : ∀ run other, (s.held key).Encloses run t → (s.held key).Encloses other t → run = other
  made : ∀ m, (s.reassemble key t frame).2 = .completed m →
    (s.held key).Encloses m.run t ∧ m.completedIn = frame ∧
      ((s.reassemble key t frame).1.held key).completed = (s.held key).completed ++ [m]
  awaiting_iff : (s.reassemble key t frame).2 = .awaitingMore ↔
    ¬ (s.held key).Finished t ∧ ∀ run, ¬ (s.held key).Encloses run t
  unchanged : (∀ m, (s.reassemble key t frame).2 ≠ .completed m) → (s.reassemble key t frame).1 = s

/-- After any calls, in any order and for any fragments, around any position. -/
theorem decided_callAll (calls : List (MessageKey × Call)) (key : MessageKey) (t : UInt32)
    (frame : FrameNumber) : (empty.callAll calls).Decided key t frame := by
  have consistent := consistent_callAll calls key
  generalize empty.callAll calls = s at consistent
  have answer : (s.reassemble key t frame).2 = ((s.held key).reassemble t frame).2 :=
    answer_reassemble
  refine ⟨?_, ?_, ?_, fun run other => Fragments.Encloses.unique, ?_, ?_, ?_⟩ <;> rw [answer]
  · exact fun m => consistent.again_iff
  · exact fun earlier => consistent.partOf_iff
  · exact consistent.marked.completed_iff
  · intro m completed
    rw [held_reassemble, if_pos rfl]
    exact consistent.marked.of_completed completed
  · exact consistent.marked.awaiting_iff
  · exact fun other => reassemble_of_same (consistent.marked.unchanged other)

end Store

end SctpTrace.Reassembly
