import SctpTrace.Proofs.Reassembly.Runs

/-!
The search for a run between the nearest boundaries. In a store whose boundary lists are exact
(`Marked`) it finds the whole run of waiting fragments around a position and nothing else
(`runAround?_eq_some_iff`). Adding a fragment and assembling a run keep the lists exact.
-/
namespace SctpTrace.Reassembly

open Serial

/- The least of a list under a measure. -/

theorem closest?_eq_none_iff {measure : UInt32 → Nat} {positions : List UInt32} :
    closest? measure positions = none ↔ positions = [] := by
  cases positions with
  | nil => simp [closest?]
  | cons p rest =>
    simp only [closest?, reduceCtorEq, iff_false]
    split
    · simp
    · split <;> simp

theorem closest?_spec {measure : UInt32 → Nat} {positions : List UInt32} {p : UInt32}
    (found : closest? measure positions = some p) :
    p ∈ positions ∧ ∀ q ∈ positions, measure p ≤ measure q := by
  induction positions generalizing p with
  | nil => simp [closest?] at found
  | cons head rest ih =>
    simp only [closest?] at found
    cases later : closest? measure rest with
    | none =>
      rw [later] at found
      have alone := closest?_eq_none_iff.mp later
      simp_all
    | some q =>
      rw [later] at found
      obtain ⟨member, least⟩ := ih later
      simp only at found
      split at found
      · rename_i nearer
        cases found
        refine ⟨List.mem_cons_of_mem _ member, ?_⟩
        intro r mr
        rcases List.mem_cons.mp mr with rfl | mr
        · omega
        · exact least r mr
      · cases found
        refine ⟨List.mem_cons_self, ?_⟩
        intro r mr
        rcases List.mem_cons.mp mr with rfl | mr
        · omega
        · have := least r mr
          omega

theorem closest?_eq_some_iff {measure : UInt32 → Nat} {positions : List UInt32} {p : UInt32}
    (injective : ∀ q r, measure q = measure r → q = r) :
    closest? measure positions = some p ↔
      p ∈ positions ∧ ∀ q ∈ positions, measure p ≤ measure q := by
  constructor
  · exact closest?_spec
  · rintro ⟨member, least⟩
    cases found : closest? measure positions with
    | none =>
      rw [closest?_eq_none_iff.mp found] at member
      simp at member
    | some q =>
      obtain ⟨there, leastOther⟩ := closest?_spec found
      have same : measure q = measure p :=
        Nat.le_antisymm (leastOther p member) (least q there)
      rw [injective q p same]

theorem mem_insert_between {before : UInt32 → Bool} {p q : UInt32} {positions : List UInt32} :
    q ∈ positions.takeWhile before ++ p :: positions.dropWhile before ↔
      q = p ∨ q ∈ positions := by
  have parts : q ∈ positions ↔
      q ∈ positions.takeWhile before ∨ q ∈ positions.dropWhile before := by
    rw [← List.mem_append, List.takeWhile_append_dropWhile]
  rw [List.mem_append, List.mem_cons, parts, or_left_comm]

theorem mem_insertDescending {p q : UInt32} {positions : List UInt32} :
    q ∈ insertDescending p positions ↔ q = p ∨ q ∈ positions :=
  mem_insert_between

theorem mem_insertAscending {p q : UInt32} {positions : List UInt32} :
    q ∈ insertAscending p positions ↔ q = p ∨ q ∈ positions :=
  mem_insert_between

theorem mem_listed {flag : Bool} {p t : UInt32} {inserted positions : List UInt32}
    (spec : ∀ q, q ∈ inserted ↔ q = p ∨ q ∈ positions) :
    (t ∈ if flag then inserted else positions) ↔ (t = p ∧ flag = true) ∨ t ∈ positions := by
  cases flag <;> simp [spec]

namespace Fragments

def waiting? (s : Fragments) (t : UInt32) : Option Edges :=
  (s.fragment? t).bind fun f => if f.isConsumed then none else some ⟨f.isFirst, f.isLast⟩

/-- The boundary lists hold the boundaries of the waiting fragments and nothing else. -/
structure Marked (s : Fragments) : Prop where
  firsts : ∀ t, t ∈ s.firsts ↔ ∃ e, s.waiting? t = some e ∧ e.isFirst = true
  lasts : ∀ t, t ∈ s.lasts ↔ ∃ e, s.waiting? t = some e ∧ e.isLast = true

variable {s : Fragments} {run : Run} {t : UInt32}

theorem fragment?_of_waiting? {e : Edges} (found : s.waiting? t = some e) :
    ∃ f, s.fragment? t = some f ∧ f.isConsumed = false ∧ e = ⟨f.isFirst, f.isLast⟩ := by
  simp only [waiting?, Option.bind_eq_some_iff] at found
  obtain ⟨f, here, edges⟩ := found
  refine ⟨f, here, ?_⟩
  cases consumed : f.isConsumed <;> simp_all

theorem mem_stored_of_waiting? {e : Edges} (found : s.waiting? t = some e) :
    t ∈ s.stored.map (·.position) := by
  obtain ⟨f, here, -⟩ := fragment?_of_waiting? found
  have place := List.find?_some here
  exact List.mem_map.mpr ⟨f, List.mem_of_find?_eq_some here, by simpa using place⟩

theorem length_le_stored (whole : run.Whole s.waiting?) : run.length ≤ s.stored.length := by
  have inside : arc run.first run.last ⊆ s.stored.map (·.position) := by
    intro t member
    exact mem_stored_of_waiting? (whole.edges_at (Run.mem_arc_iff.mp member))
  have bound := (nodup_arc run.first run.last).length_le_of_subset inside
  simpa [length_arc, Run.length] using bound

/- What the walk checks at step `k`; it takes the boundaries of the ends for granted. -/
def Passes (s : Fragments) (run : Run) (k : Nat) : Prop :=
  ∃ e, s.waiting? (forward run.first k) = some e ∧ (k ≠ 0 → e.isFirst = false) ∧
    (k + 1 ≠ run.length → e.isLast = false)

theorem walk_succ {steps k : Nat} (inside : k < run.length) :
    s.walk run (steps + 1) (forward run.first k) = .arrived ↔
      s.Passes run k ∧
        (k + 1 ≠ run.length → s.walk run steps (forward run.first (k + 1)) = .arrived) := by
  have atFirst := Run.forward_eq_first_iff inside
  have atLast := Run.forward_eq_last_iff inside
  simp only [walk, Passes, waiting?, forward_succ]
  cases here : s.fragment? (forward run.first k) with
  | none => simp
  | some f =>
    cases consumed : f.isConsumed <;> cases opens : f.isFirst <;> cases closes : f.isLast <;>
      by_cases zero : k = 0 <;> by_cases final : k + 1 = run.length <;>
        simp_all

theorem walk_arrived_iff {steps k : Nat} (inside : k < run.length) :
    s.walk run steps (forward run.first k) = .arrived ↔
      run.length ≤ k + steps ∧ ∀ j, k ≤ j → j < run.length → s.Passes run j := by
  induction steps generalizing k with
  | zero =>
    simp only [walk, reduceCtorEq, Nat.add_zero, false_iff, not_and]
    omega
  | succ steps ih =>
    rw [walk_succ inside]
    by_cases final : k + 1 = run.length
    · simp only [final, ne_eq, not_true_eq_false, false_implies, and_true]
      constructor
      · intro here
        refine ⟨by omega, ?_⟩
        intro j low high
        rwa [show j = k by omega]
      · rintro ⟨-, all⟩
        exact all k (Nat.le_refl k) inside
    · rw [ih (by omega)]
      constructor
      · rintro ⟨here, later⟩
        obtain ⟨enough, all⟩ := later final
        refine ⟨by omega, ?_⟩
        intro j low high
        rcases Nat.lt_or_ge k j with after | same
        · exact all j after high
        · rwa [show j = k by omega]
      · rintro ⟨enough, all⟩
        refine ⟨all k (Nat.le_refl k) inside, ?_⟩
        intro _
        exact ⟨by omega, fun j low high => all j (by omega) high⟩

/-- Between a first and a last boundary the walk arrives exactly on a whole run. -/
theorem walkWhole_arrived_iff (marked : s.Marked) (first : run.first ∈ s.firsts)
    (last : run.last ∈ s.lasts) : s.walkWhole run = .arrived ↔ run.Whole s.waiting? := by
  have walked : s.walk run (s.stored.length + 1) (forward run.first 0) = .arrived ↔ _ :=
    walk_arrived_iff run.length_pos
  rw [forward_zero] at walked
  rw [walkWhole, walked]
  constructor
  · rintro ⟨-, all⟩ k bound
    obtain ⟨e, found, notFirst, notLast⟩ := all k (Nat.zero_le k) bound
    rw [found, Option.some.injEq]
    have opens : e.isFirst = (k == 0) := by
      by_cases zero : k = 0
      · subst zero
        obtain ⟨e', found', opens⟩ := (marked.firsts run.first).mp first
        rw [forward_zero, found'] at found
        cases found
        simpa using opens
      · simp [notFirst zero, zero]
    have closes : e.isLast = (k + 1 == run.length) := by
      by_cases final : k + 1 = run.length
      · obtain ⟨e', found', closes⟩ := (marked.lasts run.last).mp last
        rw [show k = run.length - 1 by omega, run.forward_last, found'] at found
        cases found
        simpa [final] using closes
      · simp [notLast final, final]
    rw [← opens, ← closes]
  · intro whole
    have fits := length_le_stored whole
    refine ⟨by omega, ?_⟩
    intro j _ bound
    refine ⟨_, whole j bound, ?_, ?_⟩
    · intro different
      simpa using different
    · intro different
      simpa using different

/-- The search finds the whole run of waiting fragments around a position and nothing else. -/
theorem runAround?_eq_some_iff (marked : s.Marked) :
    s.runAround? t = some run ↔ run.Whole s.waiting? ∧ run.covers t = true := by
  have toward : ∀ p q, distance p t = distance q t → p = q := fun _ _ => distance_left_inj
  have away : ∀ p q, distance t p = distance t q → p = q := fun _ _ => distance_inj
  constructor
  · intro found
    simp only [runAround?, Option.bind_eq_bind, Option.bind_eq_some_iff] at found
    obtain ⟨first, nearFirst, last, nearLast, rest⟩ := found
    split at rest
    · rename_i checked
      cases rest
      simp only [Bool.and_eq_true, beq_iff_eq] at checked
      have inFirsts := (closest?_spec nearFirst).1
      have inLasts := (closest?_spec nearLast).1
      exact ⟨(walkWhole_arrived_iff marked inFirsts inLasts).mp checked.2, checked.1⟩
    · cases rest
  · rintro ⟨whole, inside⟩
    have inFirsts : run.first ∈ s.firsts := (marked.firsts _).mpr whole.edges_first
    have inLasts : run.last ∈ s.lasts := (marked.lasts _).mpr whole.edges_last
    -- another boundary nearer to the position would lie within the run
    have nearFirst : closest? (fun p => distance p t) s.firsts = some run.first := by
      rw [closest?_eq_some_iff toward]
      refine ⟨inFirsts, ?_⟩
      intro q member
      rcases Nat.le_total (distance run.first t) (distance q t) with le | nearer
      · exact le
      · obtain ⟨e, found, opens⟩ := (marked.firsts q).mp member
        have within : run.covers q = true := by
          rw [Run.covers_iff] at inside ⊢
          rw [distance_of_nearer nearer]
          omega
        exact Nat.le_of_eq (by rw [whole.first_of_isFirst within found opens])
    have nearLast : closest? (fun p => distance t p) s.lasts = some run.last := by
      rw [closest?_eq_some_iff away]
      refine ⟨inLasts, ?_⟩
      intro q member
      rcases Nat.le_total (distance t run.last) (distance t q) with le | nearer
      · exact le
      · obtain ⟨e, found, closes⟩ := (marked.lasts q).mp member
        have within : run.covers q = true := by
          have split := distance_split (onArc_iff.mp inside)
          have bound := distance_lt run.first run.last
          have place := distance_forward_add run.first t (distance t q) (by omega)
          rw [forward_distance] at place
          rw [Run.covers_iff, Run.length]
          omega
        exact Nat.le_of_eq (by rw [whole.last_of_isLast within found closes])
    have arrived := (walkWhole_arrived_iff marked inFirsts inLasts).mpr whole
    have between : onArc run.first run.last t = true := inside
    simp only [runAround?, nearFirst, nearLast, Option.bind_eq_bind, Option.bind_some, between,
      arrived, beq_self_eq_true, Bool.and_self, ↓reduceIte]

/- What adding and assembling do to the fragment at one position. -/

def arrived (position : UInt32) (isFirst isLast : Bool) (payload : Bytes) (frame : FrameNumber) :
    Fragment :=
  ⟨position, frame, payload.length, isFirst, isLast, some payload⟩

variable {position : UInt32} {isFirst isLast : Bool} {payload : Bytes} {frame : FrameNumber}

theorem add_known {known : Fragment} (here : s.fragment? position = some known) :
    (s.add position isFirst isLast payload frame).1 = s := by
  simp [add, here]

theorem fragment?_add (new : s.fragment? position = none) :
    (s.add position isFirst isLast payload frame).1.fragment? t =
      if t = position then some (arrived position isFirst isLast payload frame)
      else s.fragment? t := by
  have appended : (s.add position isFirst isLast payload frame).1.stored =
      s.stored ++ [arrived position isFirst isLast payload frame] := by
    simp [add, new, arrived]
  rw [fragment?, appended, List.find?_append, ← fragment?]
  by_cases same : t = position
  · subst same
    simp [new, arrived]
  · have absent : (arrived position isFirst isLast payload frame).position ≠ t := Ne.symm same
    cases found : s.fragment? t <;> simp [same, absent]

theorem waiting?_add (new : s.fragment? position = none) :
    (s.add position isFirst isLast payload frame).1.waiting? t =
      if t = position then some ⟨isFirst, isLast⟩ else s.waiting? t := by
  rw [waiting?, fragment?_add new, waiting?]
  split
  · simp [arrived, Fragment.isConsumed]
  · rfl

theorem fragment?_assemble (run : Run) :
    (s.assemble run frame).fragment? t =
      (s.fragment? t).map fun f => if run.covers t then f.consumed else f := by
  simp only [fragment?, assemble, List.find?_map]
  have unmoved : ((fun f : Fragment => f.position == t) ∘
      fun f => if onArc run.first run.last f.position then f.consumed else f) =
        fun f => f.position == t := by
    funext f
    simp only [Function.comp_apply]
    split <;> rfl
  rw [unmoved]
  cases found : s.stored.find? fun f => f.position == t with
  | none => rfl
  | some f =>
    have place : f.position = t := by simpa using List.find?_some found
    subst place
    rfl

theorem waiting?_assemble (run : Run) :
    (s.assemble run frame).waiting? t = if run.covers t then none else s.waiting? t := by
  rw [waiting?, fragment?_assemble, waiting?]
  cases s.fragment? t with
  | none => simp
  | some f => cases inside : run.covers t <;> simp [Fragment.consumed, Fragment.isConsumed]

theorem marked_empty : Marked empty := by
  constructor <;> intro t <;> simp [empty, waiting?, fragment?]

theorem Marked.add (marked : s.Marked) :
    (s.add position isFirst isLast payload frame).1.Marked := by
  cases here : s.fragment? position with
  | some known =>
    rw [add_known here]
    exact marked
  | none =>
    have unmarked : s.waiting? position = none := by simp [waiting?, here]
    constructor
    · intro t
      have known : (s.add position isFirst isLast payload frame).1.firsts =
          if isFirst then insertDescending position s.firsts else s.firsts := by
        simp [Fragments.add, here]
      rw [known, mem_listed fun _ => mem_insertDescending, marked.firsts t, waiting?_add here]
      by_cases same : t = position
      · subst same
        simp [unmarked]
      · simp [same]
    · intro t
      have known : (s.add position isFirst isLast payload frame).1.lasts =
          if isLast then insertAscending position s.lasts else s.lasts := by
        simp [Fragments.add, here]
      rw [known, mem_listed fun _ => mem_insertAscending, marked.lasts t, waiting?_add here]
      by_cases same : t = position
      · subst same
        simp [unmarked]
      · simp [same]

/- Removing the boundaries of the run by their positions is enough, because a whole run has no
   other boundary inside. -/
theorem Marked.assemble (marked : s.Marked) (whole : run.Whole s.waiting?) :
    (s.assemble run frame).Marked := by
  constructor
  · intro t
    rw [waiting?_assemble]
    simp only [Fragments.assemble, List.mem_filter, bne_iff_ne, marked.firsts t]
    constructor
    · rintro ⟨⟨e, found, opens⟩, other⟩
      have outside : run.covers t = false :=
        Bool.eq_false_iff.mpr fun inside => other (whole.first_of_isFirst inside found opens)
      exact ⟨e, by simpa [outside] using found, opens⟩
    · rintro ⟨e, found, opens⟩
      split at found
      · cases found
      · rename_i outside
        refine ⟨⟨e, found, opens⟩, ?_⟩
        rintro rfl
        exact outside run.covers_first
  · intro t
    rw [waiting?_assemble]
    simp only [Fragments.assemble, List.mem_filter, bne_iff_ne, marked.lasts t]
    constructor
    · rintro ⟨⟨e, found, closes⟩, other⟩
      have outside : run.covers t = false :=
        Bool.eq_false_iff.mpr fun inside => other (whole.last_of_isLast inside found closes)
      exact ⟨e, by simpa [outside] using found, closes⟩
    · rintro ⟨e, found, closes⟩
      split at found
      · cases found
      · rename_i outside
        refine ⟨⟨e, found, closes⟩, ?_⟩
        rintro rfl
        exact outside run.covers_last

end Fragments

end SctpTrace.Reassembly
