import SctpTrace.Proofs.Guarded.Reading
import SctpTrace.Proofs.Reassembly.Calls

/-!
The search for a message with the one number in it that can leave its type: the fragments of a
joined message, counted in 32 bits for a log. The count fails for a message all around the circle
and for no other one (`fragmentCount_eq_none_iff`). Such a message takes 2^32 stored fragments, so
that no search fails before as many calls were made (`reassemble_in_range`).
-/
namespace SctpTrace.Guarded

open Reassembly Serial

def fragmentCount (run : Run) : Option Nat := word (distance run.first run.last + 1)

/- Between the ends, or on either side of the wrap. -/
def contains (m : Message) (t : UInt32) : Bool :=
  if m.first ≤ m.last then decide (m.first ≤ t ∧ t ≤ m.last)
  else decide (m.first ≤ t ∨ t ≤ m.last)

def reassemble (s : Fragments) (t : UInt32) (frame : FrameNumber) :
    Option (Fragments × Attempt) :=
  match s.completed.find? (contains · t) with
  | some m => some (s, if m.completedIn = frame then .again m else .partOf m.completedIn)
  | none =>
    match s.runAround? t with
    | none => some (s, .awaitingMore)
    | some run =>
      (fragmentCount run).map fun _ => (s.assemble run frame, .completed (s.message run frame))

theorem contains_eq (m : Message) (t : UInt32) : contains m t = m.contains t := by
  rw [contains, Message.contains, onArc_eq_range]

theorem fragmentCount_eq_none_iff {run : Run} :
    fragmentCount run = none ↔ run.last + 1 = run.first := by
  have hf := run.first.toNat_lt
  have hl := run.last.toNat_lt
  rw [fragmentCount, word_eq_none_iff, ← UInt32.toNat_inj]
  simp only [distance, UInt32.toNat_sub, UInt32.toNat_add, UInt32.toNat_one]
  omega

section
variable {arrivals : List Arrival} {s : Fragments} {t : UInt32} {frame : FrameNumber}

theorem reassemble_eq_of_few (marked : s.Marked) (few : s.stored.length < 4294967296) :
    reassemble s t frame = some (s.reassemble t frame) := by
  unfold reassemble Fragments.reassemble
  simp only [contains_eq]
  cases s.completed.find? (·.contains t) with
  | some m => rfl
  | none =>
    cases around : s.runAround? t with
    | none => rfl
    | some run =>
      have whole := ((Fragments.runAround?_eq_some_iff marked).mp around).1
      have held := Fragments.length_le_stored whole
      have count : fragmentCount run = some run.length := word_eq (by
        rw [← Run.length]
        omega)
      simp only [count, Option.map_some]

theorem length_stored_call (s : Fragments) (c : Call) :
    (s.call c).stored.length ≤ s.stored.length + 1 := by
  cases c with
  | add a =>
    simp only [Fragments.call, Fragments.added, Fragments.add]
    split <;> simp
  | search t frame =>
    simp only [Fragments.call, Fragments.reassemble]
    split
    · simp
    · split <;> simp [Fragments.assemble]

end

theorem length_stored_callAll (calls : List (MessageKey × Call)) (s : Store) (key : MessageKey) :
    ((s.callAll calls).held key).stored.length ≤ (s.held key).stored.length + calls.length := by
  induction calls generalizing s with
  | nil => exact Nat.le_refl _
  | cons c rest ih =>
    obtain ⟨own, c⟩ := c
    have one := length_stored_call (s.held own) c
    have later := ih (s.call own c)
    rw [Store.held_call] at later
    rw [List.length_cons]
    change (((s.call own c).callAll rest).held key).stored.length ≤ _
    split at later
    · rename_i same
      subst same
      omega
    · omega

theorem reassemble_in_range (calls : List (MessageKey × Call))
    (few : calls.length < 4294967296) (key : MessageKey) (t : UInt32) (frame : FrameNumber) :
    reassemble ((Store.empty.callAll calls).held key) t frame =
      some (((Store.empty.callAll calls).held key).reassemble t frame) := by
  have held := length_stored_callAll calls .empty key
  change _ ≤ 0 + calls.length at held
  exact reassemble_eq_of_few (Store.consistent_callAll calls key).marked (by omega)

end SctpTrace.Guarded
