import SctpTrace.Proofs.Session.Carried

/-!
Which chunks of a run are answered with a message. The chunks so far account for the fragments of
every key (`Accounts`): a message is returned to fragments of the frame that completed it, and more
than once only if this frame brings a position again.
-/
namespace SctpTrace.Session

open Reassembly

namespace ChunkPass

def part? (x : ChunkPass) (key : MessageKey) (m : Message) : Option UInt32 :=
  x.fragment?.bind fun e => if e.1 = key ∧ m.contains e.2 = true then some e.2 else none

def returns (x : ChunkPass) (key : MessageKey) (m : Message) : Bool :=
  (x.part? key m).isSome && x.delivery? == some (.reassembled m.data m.frames)

end ChunkPass

def returned (chunks : List ChunkPass) (key : MessageKey) (m : Message) : List ChunkPass :=
  chunks.filter fun x => x.returns key m

def supplied (chunks : List ChunkPass) (key : MessageKey) (m : Message) : List UInt32 :=
  (chunks.filter fun x => x.frame == m.completedIn).filterMap fun x => x.part? key m

variable {s : Session} {x : ChunkPass} {chunks : List ChunkPass} {key : MessageKey} {m : Message}
  {t : UInt32}

theorem ChunkPass.part?_eq_some_iff :
    x.part? key m = some t ↔ x.fragment? = some (key, t) ∧ m.contains t = true := by
  unfold part?
  cases x.fragment? with
  | none => simp
  | some e => grind

theorem ChunkPass.returns_iff : x.returns key m = true ↔
    ∃ t, x.fragment? = some (key, t) ∧ m.contains t = true ∧
      x.delivery? = some (.reassembled m.data m.frames) := by
  rw [returns, Bool.and_eq_true, Option.isSome_iff_exists, beq_iff_eq]
  simp only [part?_eq_some_iff]
  constructor
  · rintro ⟨⟨t, fragment, inside⟩, told⟩
    exact ⟨t, fragment, inside, told⟩
  · rintro ⟨t, fragment, inside, told⟩
    exact ⟨⟨t, fragment, inside⟩, told⟩

theorem ChunkPass.contains_of_returns (fragment : x.fragment? = some (key, t))
    (returns : x.returns key m = true) : m.contains t = true := by
  obtain ⟨place, here, inside, -⟩ := returns_iff.mp returns
  rw [fragment] at here
  cases here
  exact inside

theorem ChunkPass.returns_eq_false (fragment : x.fragment? = some (key, t))
    (outside : m.contains t = false) : x.returns key m = false := by
  apply Bool.eq_false_iff.mpr
  intro returns
  rw [contains_of_returns fragment returns] at outside
  cases outside

theorem mem_supplied {y : ChunkPass} (there : y ∈ chunks) (own : y.frame = m.completedIn)
    (fragment : y.fragment? = some (key, t)) (inside : m.contains t = true) :
    t ∈ supplied chunks key m := by
  rw [supplied, List.mem_filterMap]
  refine ⟨y, ?_, ChunkPass.part?_eq_some_iff.mpr ⟨fragment, inside⟩⟩
  exact List.mem_filter.mpr ⟨there, by simpa using own⟩

/-- A message is returned in the frame that completed it, and once unless this frame brings one of
its positions again. -/
structure Returned (chunks : List ChunkPass) (key : MessageKey) (m : Message) : Prop where
  present : returned chunks key m ≠ []
  frame : ∀ x ∈ returned chunks key m, x.frame = m.completedIn
  once : (supplied chunks key m).Nodup → (returned chunks key m).length = 1

theorem returned_append (chunks : List ChunkPass) (x : ChunkPass) (key : MessageKey) (m : Message) :
    returned (chunks ++ [x]) key m =
      returned chunks key m ++ if x.returns key m then [x] else [] := by
  rw [returned, List.filter_append, List.filter_singleton]
  cases x.returns key m <;> rfl

theorem supplied_append (chunks : List ChunkPass) (x : ChunkPass) (key : MessageKey) (m : Message) :
    supplied (chunks ++ [x]) key m = supplied chunks key m ++ supplied [x] key m := by
  rw [supplied, List.filter_append, List.filterMap_append]
  rfl

theorem Returned.quiet (before : Returned chunks key m) (quiet : x.returns key m = false) :
    Returned (chunks ++ [x]) key m := by
  have same : returned (chunks ++ [x]) key m = returned chunks key m := by
    rw [returned_append, quiet]
    exact List.append_nil _
  refine ⟨?_, ?_, ?_⟩
  · rw [same]
    exact before.present
  · rw [same]
    exact before.frame
  · rw [same, supplied_append]
    intro distinct
    exact before.once (List.nodup_append.mp distinct).1

theorem Returned.first (nothing : returned chunks key m = []) (returns : x.returns key m = true)
    (own : x.frame = m.completedIn) : Returned (chunks ++ [x]) key m := by
  have only : returned (chunks ++ [x]) key m = [x] := by
    rw [returned_append, nothing, if_pos returns, List.nil_append]
  refine ⟨?_, ?_, ?_⟩
  · rw [only]
    exact List.cons_ne_nil x []
  · rw [only]
    intro y there
    rw [List.mem_singleton.mp there]
    exact own
  · rw [only]
    exact fun _ => rfl

theorem Returned.again {y : ChunkPass} (before : Returned chunks key m) (there : y ∈ chunks)
    (ownBefore : y.frame = m.completedIn) (fragmentBefore : y.fragment? = some (key, t))
    (own : x.frame = m.completedIn) (fragment : x.fragment? = some (key, t))
    (inside : m.contains t = true) : Returned (chunks ++ [x]) key m := by
  refine ⟨?_, ?_, ?_⟩
  · rw [returned_append]
    exact List.append_ne_nil_of_left_ne_nil before.present _
  · rw [returned_append]
    intro z member
    rcases List.mem_append.mp member with old | last
    · exact before.frame z old
    · split at last
      · rw [List.mem_singleton.mp last]
        exact own
      · cases last
  · rw [supplied_append]
    intro distinct
    have earlier := mem_supplied there ownBefore fragmentBefore inside
    have now := mem_supplied (List.mem_singleton_self x) own fragment inside
    exact absurd rfl ((List.nodup_append.mp distinct).2.2 t earlier t now)

structure Answers (chunks : List ChunkPass) (key : MessageKey) (completed : List Message) :
    Prop where
  returned : ∀ m ∈ completed, Returned chunks key m
  held : ∀ x ∈ chunks, ∀ t data frames, x.fragment? = some (key, t) →
    x.delivery? = some (.reassembled data frames) → ∃ m ∈ completed, x.returns key m = true

theorem Answers.later {completed grown : List Message} (answers : Answers chunks key completed)
    (kept : ∀ m ∈ completed, m ∈ grown) (returned : ∀ m ∈ grown, Returned (chunks ++ [x]) key m)
    (last : ∀ t data frames, x.fragment? = some (key, t) →
      x.delivery? = some (.reassembled data frames) → ∃ m ∈ grown, x.returns key m = true) :
    Answers (chunks ++ [x]) key grown := by
  refine ⟨returned, ?_⟩
  intro y there t data frames fragment told
  rcases List.mem_append.mp there with old | new
  · obtain ⟨m, member, returns⟩ := answers.held y old t data frames fragment told
    exact ⟨m, kept m member, returns⟩
  · rw [List.mem_singleton.mp new] at fragment told ⊢
    exact last t data frames fragment told

theorem Answers.quiet {completed : List Message} (answers : Answers chunks key completed)
    (quiet : ∀ t, x.fragment? = some (key, t) →
      ∀ data frames, x.delivery? ≠ some (.reassembled data frames)) :
    Answers (chunks ++ [x]) key completed := by
  apply answers.later fun _ member => member
  · intro m member
    apply (answers.returned m member).quiet
    apply Bool.eq_false_iff.mpr
    intro returns
    obtain ⟨t, fragment, -, told⟩ := ChunkPass.returns_iff.mp returns
    exact quiet t fragment _ _ told
  · intro t data frames fragment told
    exact absurd told (quiet t fragment data frames)

theorem Answers.again {completed : List Message} {y : ChunkPass}
    (answers : Answers chunks key completed) (there : y ∈ chunks)
    (ownBefore : y.frame = m.completedIn) (fragmentBefore : y.fragment? = some (key, t))
    (member : m ∈ completed) (inside : m.contains t = true)
    (only : ∀ other ∈ completed, other.contains t = true → other = m)
    (own : x.frame = m.completedIn) (fragment : x.fragment? = some (key, t))
    (told : x.delivery? = some (.reassembled m.data m.frames)) :
    Answers (chunks ++ [x]) key completed := by
  apply answers.later fun _ is => is
  · intro other is
    cases meets : other.contains t with
    | true =>
      rw [only other is meets]
      exact (answers.returned m member).again there ownBefore fragmentBefore own fragment inside
    | false => exact (answers.returned other is).quiet (ChunkPass.returns_eq_false fragment meets)
  · intro _ data frames _ _
    exact ⟨m, member, ChunkPass.returns_iff.mpr ⟨t, fragment, inside, told⟩⟩

theorem Answers.first {completed : List Message} (answers : Answers chunks key completed)
    (outside : ∀ other ∈ completed, ∀ t, m.contains t = true → other.contains t = false)
    (inside : m.contains t = true) (own : x.frame = m.completedIn)
    (fragment : x.fragment? = some (key, t))
    (told : x.delivery? = some (.reassembled m.data m.frames)) :
    Answers (chunks ++ [x]) key (completed ++ [m]) := by
  have returns : x.returns key m = true := ChunkPass.returns_iff.mpr ⟨t, fragment, inside, told⟩
  -- What was returned before are messages that do not meet this one.
  have nothing : Session.returned chunks key m = [] := by
    rw [List.eq_nil_iff_forall_not_mem]
    intro y back
    obtain ⟨there, early⟩ := List.mem_filter.mp back
    obtain ⟨place, brought, covered, toldBefore⟩ := ChunkPass.returns_iff.mp early
    obtain ⟨old, member, earlier⟩ := answers.held y there place _ _ brought toldBefore
    have meets := ChunkPass.contains_of_returns brought earlier
    rw [outside old member place covered] at meets
    cases meets
  apply answers.later
  · exact fun _ member => List.mem_append_left _ member
  · intro other member
    rcases List.mem_append.mp member with old | last
    · exact (answers.returned other old).quiet
        (ChunkPass.returns_eq_false fragment (outside other old t inside))
    · rw [List.mem_singleton.mp last]
      exact .first nothing returns own
  · intro _ data frames _ _
    exact ⟨m, List.mem_append_right _ (List.mem_singleton_self m), returns⟩

/-- The chunks so far account for the fragments of a key: each one was brought in the frame that it
is stored under, and what was returned are the messages. -/
structure Accounts (chunks : List ChunkPass) (key : MessageKey) (s : Fragments) : Prop where
  spent : s.Spent
  brought : ∀ t f, s.fragment? t = some f →
    ∃ x ∈ chunks, x.fragment? = some (key, t) ∧ x.frame = f.frame
  answers : Answers chunks key s.completed

section Step

variable {known : Fragments} {a : Arrival}

theorem accounts_empty (key : MessageKey) : Accounts [] key .empty := by
  refine ⟨Fragments.spent_empty, ?_, ?_, ?_⟩
  · intro t f absent
    cases absent
  · intro m absent
    cases absent
  · intro x absent
    cases absent

theorem Accounts.quiet (accounts : Accounts chunks key known)
    (quiet : ∀ t, x.fragment? = some (key, t) →
      ∀ data frames, x.delivery? ≠ some (.reassembled data frames)) :
    Accounts (chunks ++ [x]) key known := by
  refine ⟨accounts.spent, ?_, accounts.answers.quiet quiet⟩
  intro t f found
  obtain ⟨y, there, fragment⟩ := accounts.brought t f found
  exact ⟨y, List.mem_append_left _ there, fragment⟩

theorem Accounts.answers_receive (accounts : Accounts chunks key known)
    (fragment : x.fragment? = some (key, a.position)) (frame : a.frame = x.frame)
    (told : x.delivery? = some (.ofReceipt (known.receive a).2)) :
    Answers (chunks ++ [x]) key (known.receive a).1.completed := by
  have receipt := Fragments.receipt accounts.spent a
  generalize known.receive a = outcome at receipt told ⊢
  cases receipt with
  | duplicate earlier =>
    apply accounts.answers.quiet
    intro t _ data frames
    rw [told]
    simp [Delivery.ofReceipt]
  | partOf completedIn =>
    apply accounts.answers.quiet
    intro t _ data frames
    rw [told]
    simp [Delivery.ofReceipt, Delivery.ofAttempt]
  | waiting =>
    rw [Fragments.completed_added]
    apply accounts.answers.quiet
    intro t _ data frames
    rw [told]
    simp [Delivery.ofReceipt, Delivery.ofAttempt]
  | @again m stored member inside own here before =>
    obtain ⟨y, there, brought, sameFrame⟩ := accounts.brought a.position stored here
    apply accounts.answers.again there _ brought member inside _ _ fragment told
    · rw [sameFrame, before, own]
    · intro other is meets
      exact accounts.spent.apart other is m member a.position meets inside
    · rw [← frame, own]
  | @completed run whole around =>
    -- The run consists of waiting fragments, so no earlier message meets the new one.
    have grown : ((known.added a).assemble run a.frame).completed =
        known.completed ++ [(known.added a).message run a.frame] := by
      rw [← Fragments.completed_added known a]
      rfl
    rw [grown]
    have inside : ((known.added a).message run a.frame).contains a.position = true := around
    apply accounts.answers.first _ inside frame.symm fragment told
    intro other member t covered
    rw [← Fragments.completed_added known a] at member
    exact (accounts.spent.added a).outside member whole covered

theorem Accounts.receive (accounts : Accounts chunks key known)
    (fragment : x.fragment? = some (key, a.position)) (frame : a.frame = x.frame)
    (told : x.delivery? = some (.ofReceipt (known.receive a).2)) :
    Accounts (chunks ++ [x]) key (known.receive a).1 := by
  refine ⟨accounts.spent.receive a, ?_, accounts.answers_receive fragment frame told⟩
  intro t f found
  rcases Fragments.frame_receive accounts.spent found with ⟨g, before, same⟩ | ⟨place, same⟩
  · obtain ⟨y, there, brought, own⟩ := accounts.brought t g before
    exact ⟨y, List.mem_append_left _ there, brought, own.trans same⟩
  · refine ⟨x, List.mem_append_right _ (List.mem_singleton_self x), ?_, ?_⟩
    · rw [place]
      exact fragment
    · rw [same, frame]

theorem Accounts.step (accounts : ∀ key, Accounts chunks key (x.before.store.held key)) :
    ∀ key, Accounts (chunks ++ [x]) key (x.after.store.held key) := by
  intro key
  rcases x.fragment_cases with ⟨same, silent⟩ | ⟨own, a, brings⟩
  · rw [same]
    exact (accounts key).quiet fun _ _ => silent
  · rw [brings.store, Store.held_receive]
    by_cases here : own = key
    · subst here
      rw [if_pos rfl]
      apply (accounts own).receive brings.fragment brings.frame
      rw [brings.told, Store.answer_receive]
    · rw [if_neg here]
      apply (accounts key).quiet
      intro t fragment
      rw [brings.fragment] at fragment
      cases fragment
      exact absurd rfl here

end Step

theorem accounts_passes (blank : s.tables = ⟨.empty, .empty⟩) (run : List Datagram) :
    ∀ key, Accounts (s.passes run) key ((s.visitAll run).1.tables.store.held key) := by
  apply passes_induction
    (P := fun l tables => ∀ key, Accounts l key (tables.store.held key))
  · exact fun _ _ _ kept => kept
  · exact fun _ _ _ kept => Accounts.step kept
  · rw [blank]
    exact Transmission.Tracker.sound_empty
  · rw [blank]
    exact accounts_empty

end SctpTrace.Session
