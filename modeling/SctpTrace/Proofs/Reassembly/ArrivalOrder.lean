import SctpTrace.Proofs.Lookup
import SctpTrace.Proofs.Reassembly.Search
import SctpTrace.Reassembly.Store

/-!
Fragments of one key, each position once, in any order of arrival. What is stored is what came first
for its position, and messages are made of it (`Stores`). After every arrival and the search around
it the store reflects the fragments that came so far (`Reflects`): its messages are those of their
whole runs. So the messages do not depend on the order (`completed_in_any_order`), and each one is
handed out when the last of its fragments comes.
-/
namespace SctpTrace.Reassembly

open Serial

structure Arrival where
  position : UInt32
  frame : FrameNumber
  isFirst : Bool
  isLast : Bool
  payload : Bytes
  deriving DecidableEq, Repr

def Arrival.edges (a : Arrival) : Edges := ⟨a.isFirst, a.isLast⟩

def Arrival.fragment (a : Arrival) : Fragment :=
  Fragments.arrived a.position a.isFirst a.isLast a.payload a.frame

def held? (arrivals : List Arrival) (t : UInt32) : Option Arrival :=
  arrivals.find? fun a => a.position == t

def edgesOf (arrivals : List Arrival) (t : UInt32) : Option Edges :=
  (held? arrivals t).map Arrival.edges

/-- A message apart from the frame that completed it. -/
structure Content where
  run : Run
  frames : List FrameNumber
  data : Bytes
  deriving DecidableEq, Repr

def Message.run (m : Message) : Run := ⟨m.first, m.last⟩

def Message.content (m : Message) : Content := ⟨m.run, m.frames, m.data⟩

def Attempt.message? : Attempt → Option Message
  | .completed m => some m
  | _ => none

def contentOf (arrivals : List Arrival) (run : Run) : Content :=
  let parts := (arc run.first run.last).filterMap (held? arrivals)
  ⟨run, withoutRepeats (parts.map (·.frame)), parts.flatMap (·.payload)⟩

theorem Message.contains_eq (m : Message) (t : UInt32) : m.contains t = m.run.covers t := rfl

theorem held?_eq_none_iff {arrivals : List Arrival} {t : UInt32} :
    held? arrivals t = none ↔ t ∉ arrivals.map (·.position) :=
  find?_key_eq_none_iff

theorem held?_eq_some_iff {arrivals : List Arrival} {t : UInt32} {a : Arrival}
    (distinct : (arrivals.map (·.position)).Nodup) :
    held? arrivals t = some a ↔ a ∈ arrivals ∧ a.position = t :=
  find?_key_eq_some_iff distinct

theorem held?_perm {arrivals order : List Arrival} (same : order.Perm arrivals)
    (distinct : (arrivals.map (·.position)).Nodup) (t : UInt32) :
    held? order t = held? arrivals t :=
  find?_key_perm same distinct

theorem held?_append (arrivals : List Arrival) (a : Arrival) (t : UInt32) :
    held? (arrivals ++ [a]) t =
      (held? arrivals t).or (if a.position = t then some a else none) := by
  simp only [held?, List.find?_append, List.find?_singleton, beq_iff_eq]

theorem held?_append_of_some {arrivals : List Arrival} {t : UInt32} {known : Arrival}
    (here : held? arrivals t = some known) (a : Arrival) :
    held? (arrivals ++ [a]) t = some known := by
  simp [held?_append, here]

theorem edgesOf_of_held? {arrivals : List Arrival} {t : UInt32} {e : Edges}
    (found : edgesOf arrivals t = some e) : ∃ a, held? arrivals t = some a ∧ a.edges = e := by
  simpa [edgesOf] using found

theorem edgesOf_append_of_some {arrivals : List Arrival} {t : UInt32} {e : Edges}
    (found : edgesOf arrivals t = some e) (a : Arrival) : edgesOf (arrivals ++ [a]) t = some e := by
  obtain ⟨known, here, rfl⟩ := edgesOf_of_held? found
  simp [edgesOf, held?_append_of_some here]

theorem edgesOf_append_of_ne {arrivals : List Arrival} {a : Arrival} {t : UInt32}
    (other : a.position ≠ t) : edgesOf (arrivals ++ [a]) t = edgesOf arrivals t := by
  simp [edgesOf, held?_append, other]

/-- Without the newest fragment a run that does not cover it is as whole as before. -/
theorem whole_before {arrivals : List Arrival} {a : Arrival} {run : Run}
    (whole : run.Whole (edgesOf (arrivals ++ [a]))) (outside : run.covers a.position = false) :
    run.Whole (edgesOf arrivals) := by
  apply whole.congr
  intro t inside
  refine (edgesOf_append_of_ne ?_).symm
  rintro rfl
  rw [outside] at inside
  cases inside

theorem whole_after {arrivals : List Arrival} {run : Run} (whole : run.Whole (edgesOf arrivals))
    (a : Arrival) : run.Whole (edgesOf (arrivals ++ [a])) :=
  whole.mono fun _ _ found => edgesOf_append_of_some found a

theorem contentOf_append {arrivals : List Arrival} {run : Run}
    (whole : run.Whole (edgesOf arrivals)) (a : Arrival) :
    contentOf (arrivals ++ [a]) run = contentOf arrivals run := by
  have same : (arc run.first run.last).filterMap (held? (arrivals ++ [a])) =
      (arc run.first run.last).filterMap (held? arrivals) := by
    apply List.filterMap_congr
    intro t member
    obtain ⟨known, here, -⟩ := edgesOf_of_held? (whole.edges_at (Run.mem_arc_iff.mp member))
    rw [here, held?_append_of_some here]
  simp only [contentOf, same]

namespace Fragments

/-- The store after exactly these fragments came, each position once. -/
structure Reflects (arrivals : List Arrival) (s : Fragments) : Prop where
  marked : s.Marked
  held : ∀ t, s.fragment? t = (held? arrivals t).map fun a =>
    if s.completed.any (·.contains t) then a.fragment.consumed else a.fragment
  sound : ∀ m ∈ s.completed, m.run.Whole (edgesOf arrivals) ∧ m.content = contentOf arrivals m.run
  complete : ∀ run : Run, run.Whole (edgesOf arrivals) → ∃ m ∈ s.completed, m.run = run
  once : (s.completed.map Message.run).Nodup

def added (s : Fragments) (a : Arrival) : Fragments :=
  (s.add a.position a.isFirst a.isLast a.payload a.frame).1

def arrive (s : Fragments) (a : Arrival) : Fragments × Attempt :=
  (s.added a).reassemble a.position a.frame

variable {arrivals : List Arrival} {s : Fragments} {a : Arrival} {t : UInt32} {run : Run}

theorem reflects_empty : Reflects [] empty := by
  refine ⟨marked_empty, ?_, ?_, ?_, ?_⟩
  · intro t
    rfl
  · intro m member
    cases member
  · intro run whole
    have absent := whole 0 run.length_pos
    cases absent
  · exact List.nodup_nil

theorem completed_added (s : Fragments) (a : Arrival) : (s.added a).completed = s.completed := by
  unfold added add
  split <;> rfl

/- What is stored, whatever of it was looked for. -/

/-- The fragments are the first ones that came for their positions, those of messages consumed, and
the messages are made of them. -/
structure Stores (arrivals : List Arrival) (s : Fragments) : Prop where
  marked : s.Marked
  held : ∀ t, s.fragment? t = (held? arrivals t).map fun a =>
    if s.completed.any (·.contains t) then a.fragment.consumed else a.fragment
  sound : ∀ m ∈ s.completed, m.run.Whole (edgesOf arrivals) ∧ m.content = contentOf arrivals m.run

section Stores

variable (stores : Stores arrivals s)

include stores

theorem Stores.waits {e : Edges} (found : s.waiting? t = some e) :
    ∃ a, held? arrivals t = some a ∧ a.edges = e ∧ s.fragment? t = some a.fragment ∧
      ∀ m ∈ s.completed, m.contains t = false := by
  obtain ⟨f, here, fresh, rfl⟩ := fragment?_of_waiting? found
  have told := stores.held t
  rw [here] at told
  obtain ⟨a, first, same⟩ := Option.map_eq_some_iff.mp told.symm
  cases used : s.completed.any (·.contains t) with
  | true =>
    rw [used, if_pos rfl] at same
    rw [← same] at fresh
    cases fresh
  | false =>
    rw [used, if_neg Bool.false_ne_true] at same
    subst same
    refine ⟨a, first, rfl, here, ?_⟩
    intro m member
    exact Bool.eq_false_iff.mpr (List.any_eq_false.mp used m member)

theorem Stores.whole (whole : run.Whole s.waiting?) : run.Whole (edgesOf arrivals) := by
  apply whole.mono
  intro t e found
  obtain ⟨a, first, edges, -⟩ := stores.waits found
  rw [edgesOf, first, Option.map_some, edges]

theorem Stores.content_message (whole : run.Whole s.waiting?) (frame : FrameNumber) :
    (s.message run frame).content = contentOf arrivals run := by
  have parts : s.runFragments run =
      ((arc run.first run.last).filterMap (held? arrivals)).map Arrival.fragment := by
    rw [runFragments, List.map_filterMap]
    apply List.filterMap_congr
    intro t member
    obtain ⟨a, first, -, here, -⟩ := stores.waits (whole.edges_at (Run.mem_arc_iff.mp member))
    rw [here, first]
    rfl
  simp only [message, Message.content, Message.run, contentOf, parts, List.map_map,
    List.flatMap_map]
  rfl

theorem Stores.assemble (whole : run.Whole s.waiting?) (frame : FrameNumber) :
    Stores arrivals (s.assemble run frame) := by
  have now : ∀ t, (s.message run frame).contains t = run.covers t := fun _ => rfl
  have completed : (s.assemble run frame).completed = s.completed ++ [s.message run frame] := rfl
  refine ⟨stores.marked.assemble whole, ?_, ?_⟩
  · intro t
    rw [fragment?_assemble, stores.held t, completed, List.any_append]
    cases held? arrivals t with
    | none => rfl
    | some b =>
      cases before : s.completed.any (·.contains t) <;> cases inside : run.covers t <;>
        simp [now, inside, Fragment.consumed]
  · intro m member
    rw [completed, List.mem_append, List.mem_singleton] at member
    rcases member with before | rfl
    · exact stores.sound m before
    · exact ⟨stores.whole whole, stores.content_message whole frame⟩

section New

variable (new : s.fragment? a.position = none)

include new

theorem Stores.held?_new : held? arrivals a.position = none := by
  have before := stores.held a.position
  rw [new] at before
  exact Option.map_eq_none_iff.mp before.symm

theorem Stores.outside {m : Message} (member : m ∈ s.completed) :
    m.contains a.position = false := by
  apply Bool.eq_false_iff.mpr
  intro inside
  obtain ⟨known, here, -⟩ := edgesOf_of_held? ((stores.sound m member).1.edges_at inside)
  rw [stores.held?_new new] at here
  cases here

theorem Stores.added : Stores (arrivals ++ [a]) (s.added a) := by
  have kept := completed_added s a
  refine ⟨stores.marked.add, ?_, ?_⟩
  · intro t
    rw [kept, Fragments.added, fragment?_add new, held?_append, stores.held t]
    by_cases same : t = a.position
    · subst same
      have unused : s.completed.any (·.contains a.position) = false :=
        List.any_eq_false.mpr fun m member => Bool.eq_false_iff.mp (stores.outside new member)
      rw [if_pos rfl, stores.held?_new new, if_pos rfl, unused]
      rfl
    · rw [if_neg same, if_neg (Ne.symm same), Option.or_none]
  · intro m member
    rw [kept] at member
    obtain ⟨whole, content⟩ := stores.sound m member
    exact ⟨whole_after whole a, content.trans (contentOf_append whole a).symm⟩

end New

end Stores

theorem Reflects.stores (reflects : Reflects arrivals s) : Stores arrivals s :=
  ⟨reflects.marked, reflects.held, reflects.sound⟩

theorem Reflects.fragment?_eq_none (reflects : Reflects arrivals s)
    (new : a.position ∉ arrivals.map (·.position)) : s.fragment? a.position = none := by
  rw [reflects.held, held?_eq_none_iff.mpr new]
  rfl

theorem Reflects.not_contains_new (reflects : Reflects arrivals s)
    (new : a.position ∉ arrivals.map (·.position)) {m : Message} (member : m ∈ s.completed) :
    m.contains a.position = false :=
  reflects.stores.outside (reflects.fragment?_eq_none new) member

/-- The store between the addition of a new fragment and the search around it. -/
theorem Reflects.added (reflects : Reflects arrivals s)
    (new : a.position ∉ arrivals.map (·.position)) : Stores (arrivals ++ [a]) (s.added a) :=
  reflects.stores.added (reflects.fragment?_eq_none new)

theorem Reflects.waiting?_added (reflects : Reflects arrivals s)
    (new : a.position ∉ arrivals.map (·.position)) :
    (s.added a).waiting? t =
      if s.completed.any (·.contains t) then none else edgesOf (arrivals ++ [a]) t := by
  rw [waiting?, (reflects.added new).held, completed_added, edgesOf]
  cases held? (arrivals ++ [a]) t with
  | none => simp
  | some b =>
    cases s.completed.any (·.contains t) <;>
      simp [Arrival.fragment, Arrival.edges, arrived, Fragment.consumed, Fragment.isConsumed]

/- No position of the run is consumed: a message that met the run would be the run itself, and no
   message holds the new position. -/
theorem Reflects.unconsumed (reflects : Reflects arrivals s)
    (new : a.position ∉ arrivals.map (·.position))
    (whole : run.Whole (edgesOf (arrivals ++ [a]))) (around : run.covers a.position = true)
    (inside : run.covers t = true) : s.completed.any (·.contains t) = false := by
  rw [List.any_eq_false]
  intro m member there
  have before := (reflects.sound m member).1
  have same : m.run = run := Run.whole_unique (whole_after before a) there whole inside
  have outside := reflects.not_contains_new new member
  rw [Message.contains_eq, same, around] at outside
  cases outside

theorem Reflects.whole_added_iff (reflects : Reflects arrivals s)
    (new : a.position ∉ arrivals.map (·.position)) (around : run.covers a.position = true) :
    run.Whole (s.added a).waiting? ↔
      run.Whole (edgesOf (arrivals ++ [a])) := by
  constructor
  · exact (reflects.added new).whole
  · intro whole
    apply whole.congr
    intro t inside
    rw [reflects.waiting?_added new, reflects.unconsumed new whole around inside]
    rfl

def Answered (arrivals : List Arrival) (a : Arrival) : Attempt → Prop
  | .completed m => m.run.Whole (edgesOf arrivals) ∧ m.run.covers a.position = true ∧
      m.content = contentOf arrivals m.run ∧ m.completedIn = a.frame
  | .awaitingMore => ∀ run : Run, run.Whole (edgesOf arrivals) → run.covers a.position = false
  | _ => False

theorem Reflects.arrive_eq (reflects : Reflects arrivals s)
    (new : a.position ∉ arrivals.map (·.position)) :
    s.arrive a =
      match (s.added a).runAround? a.position with
      | none => (s.added a, .awaitingMore)
      | some run =>
        ((s.added a).assemble run a.frame, .completed ((s.added a).message run a.frame)) := by
  have fresh : s.completed.find? (·.contains a.position) = none := by
    rw [List.find?_eq_none]
    intro m member
    simp [reflects.not_contains_new new member]
  cases found : (s.added a).runAround? a.position <;>
    simp only [arrive, reassemble, completed_added, fresh, found]

theorem Reflects.arrive_waiting (reflects : Reflects arrivals s)
    (new : a.position ∉ arrivals.map (·.position))
    (alone : (s.added a).runAround? a.position = none) :
    Reflects (arrivals ++ [a]) (s.added a) ∧ Answered (arrivals ++ [a]) a .awaitingMore := by
  obtain ⟨marked, held, sound⟩ := reflects.added new
  have none_around : ∀ run : Run, run.Whole (edgesOf (arrivals ++ [a])) →
      run.covers a.position = false := by
    intro run whole
    apply Bool.eq_false_iff.mpr
    intro around
    have found := (runAround?_eq_some_iff marked).mpr
      ⟨(reflects.whole_added_iff new around).mpr whole, around⟩
    rw [alone] at found
    cases found
  refine ⟨⟨marked, held, sound, ?_, ?_⟩, none_around⟩
  · intro run whole
    rw [completed_added]
    exact reflects.complete run (whole_before whole (none_around run whole))
  · rw [completed_added]
    exact reflects.once

theorem Reflects.arrive_assembling (reflects : Reflects arrivals s)
    (new : a.position ∉ arrivals.map (·.position))
    (found : (s.added a).runAround? a.position = some run) :
    Reflects (arrivals ++ [a]) ((s.added a).assemble run a.frame) ∧
      Answered (arrivals ++ [a]) a (.completed ((s.added a).message run a.frame)) := by
  have added := reflects.added new
  obtain ⟨waiting, around⟩ := (runAround?_eq_some_iff added.marked).mp found
  have whole := added.whole waiting
  obtain ⟨marked, held, sound⟩ := added.assemble waiting a.frame
  have completed : ((s.added a).assemble run a.frame).completed =
      s.completed ++ [(s.added a).message run a.frame] := by
    rw [← completed_added s a]
    rfl
  refine ⟨⟨marked, held, sound, ?_, ?_⟩, whole, around, added.content_message waiting a.frame, rfl⟩
  · intro other wholeOther
    rw [completed]
    cases meets : other.covers a.position with
    | true =>
      have same : run = other := Run.whole_unique whole around wholeOther meets
      exact ⟨_, List.mem_append_right _ (List.mem_singleton_self _), same⟩
    | false =>
      obtain ⟨m, member, same⟩ := reflects.complete other (whole_before wholeOther meets)
      exact ⟨m, List.mem_append_left _ member, same⟩
  · rw [completed, List.map_append, List.nodup_append]
    refine ⟨reflects.once, List.nodup_singleton _, ?_⟩
    intro before member now here same
    obtain ⟨m, there, rfl⟩ := List.mem_map.mp member
    simp only [List.map_cons, List.map_nil, List.mem_singleton] at here
    have outside := reflects.not_contains_new new there
    have around' : m.run.covers a.position = true := by
      rw [same, here]
      exact around
    rw [Message.contains_eq, around'] at outside
    cases outside

theorem Reflects.arrive (reflects : Reflects arrivals s)
    (new : a.position ∉ arrivals.map (·.position)) :
    Reflects (arrivals ++ [a]) (s.arrive a).1 ∧ Answered (arrivals ++ [a]) a (s.arrive a).2 ∧
      (s.arrive a).1.completed = s.completed ++ (s.arrive a).2.message?.toList := by
  rw [reflects.arrive_eq new]
  have kept := completed_added s a
  cases found : (s.added a).runAround? a.position with
  | none =>
    obtain ⟨after, answered⟩ := reflects.arrive_waiting new found
    exact ⟨after, answered, by simp [kept, Attempt.message?]⟩
  | some run =>
    obtain ⟨after, answered⟩ := reflects.arrive_assembling new found
    exact ⟨after, answered, by simp [assemble, kept, Attempt.message?]⟩

end Fragments

namespace Store

def held (s : Store) (key : MessageKey) : Fragments := (s.fragments? key).getD .empty

def arrive (s : Store) (key : MessageKey) (a : Arrival) : Store × Attempt :=
  (s.add key a.position a.isFirst a.isLast a.payload a.frame).1.reassemble key a.position a.frame

def arriveAll (key : MessageKey) : Store → List Arrival → Store × List Attempt
  | s, [] => (s, [])
  | s, a :: rest =>
    let (s, answer) := s.arrive key a
    let (s, answers) := arriveAll key s rest
    (s, answer :: answers)

variable {s : Store} {key other : MessageKey} {arrivals : List Arrival} {a : Arrival}

theorem fragments?_add {position : UInt32} {isFirst isLast : Bool} {payload : Bytes}
    {frame : FrameNumber} :
    (s.add key position isFirst isLast payload frame).1.fragments? other =
      if key = other then some ((s.held key).add position isFirst isLast payload frame).1
      else s.fragments? other := by
  simp only [add, fragments?, held, Keyed.get?_put]

theorem arrive_eq : s.arrive key a =
    (⟨Keyed.put key ((s.held key).arrive a).1
        (s.add key a.position a.isFirst a.isLast a.payload a.frame).1.entries⟩,
      ((s.held key).arrive a).2) := by
  simp only [arrive, reassemble, fragments?_add, ↓reduceIte]
  rfl

theorem answer_arrive : (s.arrive key a).2 = ((s.held key).arrive a).2 := by rw [arrive_eq]

theorem fragments?_arrive :
    (s.arrive key a).1.fragments? other =
      if key = other then some ((s.held key).arrive a).1 else s.fragments? other := by
  rw [arrive_eq, fragments?, Keyed.get?_put, ← fragments?, fragments?_add]
  split <;> rfl

theorem held_arrive : (s.arrive key a).1.held key = ((s.held key).arrive a).1 := by
  simp [held, fragments?_arrive]

theorem held_arrive_of_ne (different : key ≠ other) :
    (s.arrive key a).1.held other = s.held other := by
  simp [held, fragments?_arrive, different]

theorem arriveAll_cons {rest : List Arrival} :
    arriveAll key s (a :: rest) =
      ((arriveAll key (s.arrive key a).1 rest).1,
        (s.arrive key a).2 :: (arriveAll key (s.arrive key a).1 rest).2) := rfl

theorem length_arriveAll (order : List Arrival) :
    (arriveAll key s order).2.length = order.length := by
  induction order generalizing s with
  | nil => rfl
  | cons a rest ih => simp [arriveAll_cons, ih]

theorem arriveAll_append (before after : List Arrival) :
    arriveAll key s (before ++ after) =
      ((arriveAll key (arriveAll key s before).1 after).1,
        (arriveAll key s before).2 ++ (arriveAll key (arriveAll key s before).1 after).2) := by
  induction before generalizing s with
  | nil => rfl
  | cons a rest ih => simp [arriveAll_cons, ih]

theorem reflects_arriveAll (order : List Arrival) (reflects : (s.held key).Reflects arrivals)
    (distinct : ((arrivals ++ order).map (·.position)).Nodup) :
    ((arriveAll key s order).1.held key).Reflects (arrivals ++ order) ∧
      ((arriveAll key s order).1.held key).completed =
        (s.held key).completed ++ (arriveAll key s order).2.filterMap Attempt.message? := by
  induction order generalizing s arrivals with
  | nil => simpa [arriveAll] using reflects
  | cons a rest ih =>
    have new : a.position ∉ arrivals.map (·.position) := by
      rw [List.map_append, List.nodup_append] at distinct
      intro known
      exact distinct.2.2 _ known _ (by simp) rfl
    obtain ⟨after, -, handed⟩ := reflects.arrive new
    rw [← held_arrive] at after handed
    have assoc : arrivals ++ a :: rest = (arrivals ++ [a]) ++ rest := by simp
    rw [assoc] at distinct ⊢
    obtain ⟨final, all⟩ := ih after distinct
    refine ⟨final, ?_⟩
    rw [arriveAll_cons, all, handed, ← answer_arrive, List.filterMap_cons, List.append_assoc]
    cases (s.arrive key a).2.message? <;> rfl

theorem reflects_fresh (fresh : s.fragments? key = none) : (s.held key).Reflects [] := by
  rw [held, fresh]
  exact Fragments.reflects_empty

theorem answered_arriveAll {before after : List Arrival} (fresh : s.fragments? key = none)
    (distinct : ((before ++ a :: after).map (·.position)).Nodup) :
    ∃ answer, (arriveAll key s (before ++ a :: after)).2[before.length]? = some answer ∧
      Fragments.Answered (before ++ [a]) a answer := by
  have apart : (before.map (·.position)).Nodup ∧ a.position ∉ before.map (·.position) := by
    rw [List.map_append, List.nodup_append] at distinct
    refine ⟨distinct.1, ?_⟩
    intro known
    exact distinct.2.2 _ known _ (by simp) rfl
  obtain ⟨reflects, -⟩ := reflects_arriveAll before (reflects_fresh fresh) apart.1
  obtain ⟨-, answered, -⟩ := Fragments.Reflects.arrive reflects apart.2
  refine ⟨_, ?_, answered⟩
  rw [arriveAll_append, arriveAll_cons, ← answer_arrive]
  simp [length_arriveAll]

/-- The messages after any order of the same fragments are those of their whole runs. -/
theorem mem_messages_iff {order : List Arrival} (fresh : s.fragments? key = none)
    (distinct : (arrivals.map (·.position)).Nodup) (same : order.Perm arrivals) (c : Content) :
    c ∈ ((arriveAll key s order).1.held key).completed.map Message.content ↔
      ∃ run : Run, run.Whole (edgesOf arrivals) ∧ c = contentOf arrivals run := by
  have apart : (order.map (·.position)).Nodup := (same.map _).nodup_iff.mpr distinct
  obtain ⟨reflects, -⟩ := reflects_arriveAll order (reflects_fresh fresh) apart
  rw [List.nil_append] at reflects
  have pieces : held? order = held? arrivals := funext (held?_perm same distinct)
  have edges : edgesOf order = edgesOf arrivals := by
    funext t
    simp only [edgesOf, pieces]
  have contents : contentOf order = contentOf arrivals := by
    funext run
    simp only [contentOf, pieces]
  rw [List.mem_map, ← edges, ← contents]
  constructor
  · rintro ⟨m, member, rfl⟩
    exact ⟨m.run, reflects.sound m member⟩
  · rintro ⟨run, whole, rfl⟩
    obtain ⟨m, member, rfl⟩ := reflects.complete run whole
    exact ⟨m, member, (reflects.sound m member).2⟩

theorem nodup_messages {order : List Arrival} (fresh : s.fragments? key = none)
    (distinct : (order.map (·.position)).Nodup) :
    (((arriveAll key s order).1.held key).completed.map Message.content).Nodup := by
  obtain ⟨reflects, -⟩ := reflects_arriveAll order (reflects_fresh fresh) distinct
  refine List.Nodup.of_map Content.run ?_
  rw [List.map_map]
  exact reflects.once

/-- The messages made of the fragments of one key are those of the whole runs, in every order of
arrival. Each one is handed out once, to the last of its fragments. -/
theorem completed_in_any_order (s : Store) (key : MessageKey) (fresh : s.fragments? key = none)
    (arrivals order : List Arrival) (distinct : (arrivals.map (·.position)).Nodup)
    (same : order.Perm arrivals) :
    let messages := ((arriveAll key s order).1.held key).completed
    let answers := (arriveAll key s order).2
    (∀ c, c ∈ messages.map Message.content ↔
      ∃ run : Run, run.Whole (edgesOf arrivals) ∧ c = contentOf arrivals run) ∧
    (messages.map Message.content).Nodup ∧
    (messages.map Message.content).Perm
      (((arriveAll key s arrivals).1.held key).completed.map Message.content) ∧
    answers.filterMap Attempt.message? = messages ∧
    ∀ before a after, order = before ++ a :: after →
      ∃ answer, answers[before.length]? = some answer ∧
        Fragments.Answered (before ++ [a]) a answer := by
  have apart : (order.map (·.position)).Nodup := (same.map _).nodup_iff.mpr distinct
  have whole := mem_messages_iff fresh distinct same
  have wholeToo := mem_messages_iff fresh distinct (List.Perm.refl arrivals)
  have once := nodup_messages fresh apart
  have onceToo := nodup_messages fresh distinct
  refine ⟨whole, once, ?_, ?_, ?_⟩
  · exact (List.perm_ext_iff_of_nodup once onceToo).mpr fun c => (whole c).trans (wholeToo c).symm
  · obtain ⟨-, handed⟩ := reflects_arriveAll order (reflects_fresh fresh) apart
    have nothing : (s.held key).completed = [] := by simp [held, fresh, Fragments.empty]
    rw [handed, nothing, List.nil_append]
  · rintro before a after rfl
    exact answered_arriveAll fresh apart

def wrapKey : MessageKey := ⟨2905, 2905, 7, 1, 9, false⟩

/-- Three fragments around the wrap, a stray last one, and a message in one piece. -/
def wrapArrivals : List Arrival :=
  [⟨4294967295, 1, true, false, [65, 66]⟩, ⟨0, 2, false, false, [67]⟩, ⟨1, 2, false, true, [68]⟩,
    ⟨5, 4, false, true, [69]⟩, ⟨6, 5, true, true, [70]⟩]

theorem completed_across_the_wrap :
    Store.empty.fragments? wrapKey = none ∧ (wrapArrivals.map (·.position)).Nodup ∧
      wrapArrivals.reverse.Perm wrapArrivals ∧
      ⟨⟨4294967295, 1⟩, [1, 2], [65, 66, 67, 68]⟩ ∈
        ((arriveAll wrapKey .empty wrapArrivals.reverse).1.held wrapKey).completed.map
          Message.content := by
  obtain ⟨whole, -⟩ := completed_in_any_order .empty wrapKey rfl wrapArrivals wrapArrivals.reverse
    (by decide) (List.reverse_perm _)
  exact ⟨rfl, by decide, List.reverse_perm _, (whole _).mpr ⟨⟨4294967295, 1⟩, by decide, by decide⟩⟩

end Store

end SctpTrace.Reassembly
