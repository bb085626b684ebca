import SctpTrace.Proofs.Reassembly.ArrivalOrder

/-!
Fragments of one key that may come any number of times, from any frame. The positions of a message
stay stored and consumed (`Spent`), so that messages never meet and a message is handed out again
only to a fragment that its frame has brought before (`Receipt`).
-/
namespace SctpTrace.Reassembly

open Serial

namespace Fragments

/-- The positions of the messages are used up, and no two messages share one. -/
structure Spent (s : Fragments) : Prop where
  marked : s.Marked
  consumed : ∀ m ∈ s.completed, ∀ t, m.contains t = true →
    ∃ f, s.fragment? t = some f ∧ f.isConsumed = true
  apart : ∀ m ∈ s.completed, ∀ other ∈ s.completed, ∀ t, m.contains t = true →
    other.contains t = true → m = other

/-- Takes a fragment. Nothing is looked for around a position that an earlier frame supplied. -/
def receive (s : Fragments) (a : Arrival) : Fragments × Except FrameNumber Attempt :=
  match (s.add a.position a.isFirst a.isLast a.payload a.frame).2 with
  | .duplicate earlier => (s.added a, .error earlier)
  | _ => ((s.arrive a).1, .ok (s.arrive a).2)

inductive Receipt (s : Fragments) (a : Arrival) : Fragments × Except FrameNumber Attempt → Prop where
  | duplicate (earlier : FrameNumber) : Receipt s a (s, .error earlier)
  | partOf (completedIn : FrameNumber) : Receipt s a (s, .ok (.partOf completedIn))
  | again {m : Message} {known : Fragment} (member : m ∈ s.completed)
      (inside : m.contains a.position = true) (own : m.completedIn = a.frame)
      (here : s.fragment? a.position = some known) (before : known.frame = a.frame) :
      Receipt s a (s, .ok (.again m))
  | waiting : Receipt s a (s.added a, .ok .awaitingMore)
  | completed {run : Run} (whole : run.Whole (s.added a).waiting?)
      (around : run.covers a.position = true) :
      Receipt s a ((s.added a).assemble run a.frame,
        .ok (.completed ((s.added a).message run a.frame)))

variable {s : Fragments} {a : Arrival} {run : Run} {m : Message} {t : UInt32}

theorem spent_empty : empty.Spent := by
  refine ⟨marked_empty, ?_, ?_⟩
  · intro m absent
    cases absent
  · intro m absent
    cases absent

theorem fragment?_added_of_some {f : Fragment} (found : s.fragment? t = some f) (a : Arrival) :
    (s.added a).fragment? t = some f := by
  unfold added
  cases here : s.fragment? a.position with
  | some known =>
    rw [add_known here]
    exact found
  | none =>
    have other : t ≠ a.position := by
      rintro rfl
      rw [here] at found
      cases found
    rw [fragment?_add here, if_neg other]
    exact found

theorem Spent.added (spent : s.Spent) (a : Arrival) : (s.added a).Spent := by
  have kept := completed_added s a
  refine ⟨spent.marked.add, ?_, ?_⟩
  · intro m member t inside
    rw [kept] at member
    obtain ⟨f, found, used⟩ := spent.consumed m member t inside
    exact ⟨f, fragment?_added_of_some found a, used⟩
  · rw [kept]
    exact spent.apart

theorem Spent.outside (spent : s.Spent) (member : m ∈ s.completed)
    (whole : run.Whole s.waiting?) (covered : run.covers t = true) : m.contains t = false := by
  apply Bool.eq_false_iff.mpr
  intro inside
  obtain ⟨f, found, used⟩ := spent.consumed m member t inside
  have waits := whole.edges_at covered
  simp [waiting?, found, used] at waits

theorem Spent.assemble (spent : s.Spent) (whole : run.Whole s.waiting?) (frame : FrameNumber) :
    (s.assemble run frame).Spent := by
  have now : ∀ t, (s.message run frame).contains t = run.covers t := fun _ => rfl
  have members : ∀ m ∈ (s.assemble run frame).completed,
      m ∈ s.completed ∨ m = s.message run frame := by
    intro m member
    simpa [Fragments.assemble] using member
  refine ⟨spent.marked.assemble whole, ?_, ?_⟩
  · intro m member t inside
    rw [fragment?_assemble]
    rcases members m member with before | rfl
    · obtain ⟨f, found, used⟩ := spent.consumed m before t inside
      refine ⟨_, congrArg (Option.map _) found, ?_⟩
      split
      · rfl
      · exact used
    · rw [now] at inside
      obtain ⟨f, found, -, -⟩ := fragment?_of_waiting? (whole.edges_at inside)
      refine ⟨_, congrArg (Option.map _) found, ?_⟩
      simp only [inside, if_true]
      rfl
  · intro m member other memberToo t inside insideToo
    rcases members m member with before | rfl <;> rcases members other memberToo with old | rfl
    · exact spent.apart m before other old t inside insideToo
    · rw [spent.outside before whole insideToo] at inside
      cases inside
    · rw [spent.outside old whole inside] at insideToo
      cases insideToo
    · rfl

theorem receipt_arrive (spent : s.Spent)
    (own : ∀ known, s.fragment? a.position = some known → known.frame = a.frame) :
    Receipt s a ((s.arrive a).1, .ok (s.arrive a).2) := by
  unfold arrive reassemble
  rw [completed_added]
  split
  · rename_i m found
    have member : m ∈ s.completed := List.mem_of_find?_eq_some found
    have inside : m.contains a.position = true := by simpa using List.find?_some found
    obtain ⟨known, here, -⟩ := spent.consumed m member a.position inside
    have same : s.added a = s := add_known here
    rw [same]
    split
    · rename_i completedHere
      exact .again member inside completedHere here (own known here)
    · exact .partOf m.completedIn
  · split
    · exact .waiting
    · rename_i run found
      obtain ⟨whole, around⟩ := (runAround?_eq_some_iff (spent.added a).marked).mp found
      exact .completed whole around

theorem receipt (spent : s.Spent) (a : Arrival) : Receipt s a (s.receive a) := by
  unfold receive
  cases here : s.fragment? a.position with
  | none =>
    have new : (s.add a.position a.isFirst a.isLast a.payload a.frame).2 = .added := by
      simp [add, here]
    rw [new]
    apply receipt_arrive spent
    intro known there
    rw [here] at there
    cases there
  | some known =>
    by_cases own : known.frame = a.frame
    · have present : (s.add a.position a.isFirst a.isLast a.payload a.frame).2 =
          .alreadyPresent := by simp [add, here, own]
      rw [present]
      apply receipt_arrive spent
      intro other there
      rw [here] at there
      cases there
      exact own
    · have duplicate : (s.add a.position a.isFirst a.isLast a.payload a.frame).2 =
          .duplicate known.frame := by simp [add, here, own]
      have same : s.added a = s := add_known here
      rw [duplicate, same]
      exact .duplicate known.frame

theorem Spent.receive (spent : s.Spent) (a : Arrival) : (s.receive a).1.Spent := by
  have taken := receipt spent a
  generalize s.receive a = outcome at taken ⊢
  cases taken with
  | duplicate => exact spent
  | partOf => exact spent
  | again => exact spent
  | waiting => exact spent.added a
  | completed whole around => exact (spent.added a).assemble whole a.frame

theorem Reflects.receive {arrivals : List Arrival} (reflects : Reflects arrivals s)
    (new : a.position ∉ arrivals.map (·.position)) : Reflects (arrivals ++ [a]) (s.receive a).1 := by
  have added : (s.add a.position a.isFirst a.isLast a.payload a.frame).2 = .added := by
    simp [add, reflects.fragment?_eq_none new]
  rw [Fragments.receive, added]
  exact (reflects.arrive new).1

theorem Reflects.receive_known {arrivals : List Arrival} (reflects : Reflects arrivals s)
    (spent : s.Spent) (known : a.position ∈ arrivals.map (·.position)) : (s.receive a).1 = s := by
  have present : ∃ f, s.fragment? a.position = some f := by
    cases here : held? arrivals a.position with
    | none => exact absurd known (held?_eq_none_iff.mp here)
    | some b => exact ⟨_, (reflects.held _).trans (congrArg (Option.map _) here)⟩
  obtain ⟨f, here⟩ := present
  have same : s.added a = s := add_known here
  have taken := receipt spent a
  generalize s.receive a = outcome at taken ⊢
  cases taken with
  | duplicate => rfl
  | partOf => rfl
  | again => rfl
  | waiting => exact same
  | @completed run whole around =>
    -- A run that is whole without the fragment was assembled before, and does not wait any more.
    rw [same] at whole
    obtain ⟨m, member, isRun⟩ := reflects.complete run (reflects.stores.whole whole)
    have outside := spent.outside member whole around
    rw [Message.contains_eq, isRun, around] at outside
    cases outside

theorem frame_receive (spent : s.Spent) {f : Fragment}
    (found : (s.receive a).1.fragment? t = some f) :
    (∃ g, s.fragment? t = some g ∧ g.frame = f.frame) ∨ t = a.position ∧ f.frame = a.frame := by
  have added : ∀ g, (s.added a).fragment? t = some g →
      (∃ g', s.fragment? t = some g' ∧ g'.frame = g.frame) ∨ t = a.position ∧ g.frame = a.frame := by
    intro g there
    cases here : s.fragment? a.position with
    | some known =>
      have same : s.added a = s := add_known here
      rw [same] at there
      exact Or.inl ⟨g, there, rfl⟩
    | none =>
      rw [Fragments.added, fragment?_add here] at there
      split at there
      · rename_i place
        cases there
        exact Or.inr ⟨place, rfl⟩
      · exact Or.inl ⟨g, there, rfl⟩
  have taken := receipt spent a
  generalize s.receive a = outcome at taken found
  cases taken with
  | duplicate => exact Or.inl ⟨f, found, rfl⟩
  | partOf => exact Or.inl ⟨f, found, rfl⟩
  | again => exact Or.inl ⟨f, found, rfl⟩
  | waiting => exact added f found
  | @completed run whole around =>
    rw [fragment?_assemble] at found
    obtain ⟨g, there, rfl⟩ := Option.map_eq_some_iff.mp found
    have sameFrame : (if run.covers t then g.consumed else g).frame = g.frame := by
      split <;> rfl
    rw [sameFrame]
    exact added g there

end Fragments

namespace Store

def receive (s : Store) (key : MessageKey) (a : Arrival) : Store × Except FrameNumber Attempt :=
  match (s.add key a.position a.isFirst a.isLast a.payload a.frame).2 with
  | .duplicate earlier =>
    ((s.add key a.position a.isFirst a.isLast a.payload a.frame).1, .error earlier)
  | _ => ((s.arrive key a).1, .ok (s.arrive key a).2)

variable {s : Store} {key other : MessageKey} {a : Arrival}

theorem addition_eq : (s.add key a.position a.isFirst a.isLast a.payload a.frame).2 =
    ((s.held key).add a.position a.isFirst a.isLast a.payload a.frame).2 := rfl

theorem answer_receive : (s.receive key a).2 = ((s.held key).receive a).2 := by
  unfold receive Fragments.receive
  rw [addition_eq]
  cases ((s.held key).add a.position a.isFirst a.isLast a.payload a.frame).2 with
  | duplicate earlier => rfl
  | added => exact congrArg Except.ok answer_arrive
  | alreadyPresent => exact congrArg Except.ok answer_arrive

theorem held_receive : (s.receive key a).1.held other =
    if key = other then ((s.held key).receive a).1 else s.held other := by
  have arrived : (s.arrive key a).1.held other =
      if key = other then ((s.held key).arrive a).1 else s.held other := by
    rw [held, fragments?_arrive]
    split <;> rfl
  unfold receive Fragments.receive
  rw [addition_eq]
  cases ((s.held key).add a.position a.isFirst a.isLast a.payload a.frame).2 with
  | duplicate earlier =>
    simp only
    rw [held, fragments?_add]
    split <;> rfl
  | added => exact arrived
  | alreadyPresent => exact arrived

end Store

end SctpTrace.Reassembly
