import SctpTrace.Proofs.Reassembly.Redelivery

/-!
Fragments under any calls. They may come again, under other flags or from another frame, and a
message may be looked for around any position at any time. What is stored, what is marked as a
boundary and what is completed stay in step (`consistent_callAll`), so that every octet first stored
at its position is in one message or still waits, and in one place only (`accounted_callAll`).
-/
namespace SctpTrace.Reassembly

open Serial

inductive Call where
  | add (a : Arrival)
  | search (position : UInt32) (frame : FrameNumber)
  deriving DecidableEq, Repr

def Call.arrival? : Call → Option Arrival
  | add a => some a
  | search _ _ => none

def payloadAt (arrivals : List Arrival) (t : UInt32) : Bytes :=
  ((held? arrivals t).map (·.payload)).getD []

theorem pairwise_insert {before : UInt32 → Bool} {R : UInt32 → UInt32 → Prop} {p : UInt32}
    {positions : List UInt32} (trans : ∀ q r, R p q → R q r → R p r)
    (here : ∀ q ∈ positions, if before q then R q p else R p q) (sorted : positions.Pairwise R) :
    (positions.takeWhile before ++ p :: positions.dropWhile before).Pairwise R := by
  induction positions with
  | nil => exact List.pairwise_singleton R p
  | cons q rest ih =>
    obtain ⟨least, later⟩ := List.pairwise_cons.mp sorted
    have first := here q List.mem_cons_self
    rw [List.takeWhile_cons, List.dropWhile_cons]
    split
    · rename_i ahead
      rw [if_pos ahead] at first
      refine List.pairwise_cons.mpr
        ⟨?_, ih (fun r there => here r (List.mem_cons_of_mem _ there)) later⟩
      intro r there
      rcases mem_insert_between.mp there with rfl | old
      · exact first
      · exact least r old
    · rename_i behind
      rw [if_neg behind] at first
      refine List.pairwise_cons.mpr ⟨?_, sorted⟩
      intro r there
      rcases List.mem_cons.mp there with rfl | old
      · exact first
      · exact trans q r first (least r old)

theorem descending_insert {p : UInt32} {positions : List UInt32} (new : p ∉ positions)
    (sorted : positions.Pairwise (· > ·)) : (insertDescending p positions).Pairwise (· > ·) := by
  refine pairwise_insert (fun q r => fun above later => UInt32.lt_trans later above) ?_ sorted
  intro q there
  have other : q ≠ p := fun same => new (same ▸ there)
  split
  · rename_i ahead
    exact of_decide_eq_true ahead
  · rename_i behind
    have le := UInt32.not_lt.mp (of_decide_eq_false (Bool.eq_false_iff.mpr behind))
    exact UInt32.lt_of_le_of_ne le other

theorem ascending_insert {p : UInt32} {positions : List UInt32} (new : p ∉ positions)
    (sorted : positions.Pairwise (· < ·)) : (insertAscending p positions).Pairwise (· < ·) := by
  refine pairwise_insert (fun q r => UInt32.lt_trans) ?_ sorted
  intro q there
  have other : p ≠ q := fun same => new (same ▸ there)
  split
  · rename_i ahead
    exact of_decide_eq_true ahead
  · rename_i behind
    have le := UInt32.not_lt.mp (of_decide_eq_false (Bool.eq_false_iff.mpr behind))
    exact UInt32.lt_of_le_of_ne le other

namespace Fragments

/-- What is stored, with its boundaries in order. No position is stored twice, and no two messages
meet. -/
structure Consistent (arrivals : List Arrival) (s : Fragments) : Prop
    extends Stores arrivals s where
  descending : s.firsts.Pairwise (· > ·)
  ascending : s.lasts.Pairwise (· < ·)
  distinct : (s.stored.map (·.position)).Nodup
  apart : s.completed.Pairwise fun m other => ∀ t, m.contains t = true → other.contains t = false

def call (s : Fragments) : Call → Fragments
  | .add a => s.added a
  | .search t frame => (s.reassemble t frame).1

variable {arrivals : List Arrival} {s : Fragments} {a : Arrival} {t : UInt32} {run : Run}

theorem consistent_empty : Consistent [] empty := by
  refine ⟨⟨marked_empty, fun _ => rfl, ?_⟩, List.Pairwise.nil, List.Pairwise.nil, List.nodup_nil,
    List.Pairwise.nil⟩
  intro m absent
  cases absent

theorem Consistent.assemble (consistent : Consistent arrivals s) (whole : run.Whole s.waiting?)
    (frame : FrameNumber) : Consistent arrivals (s.assemble run frame) := by
  have now : ∀ t, (s.message run frame).contains t = run.covers t := fun _ => rfl
  refine ⟨consistent.toStores.assemble whole frame, consistent.descending.filter _,
    consistent.ascending.filter _, ?_, ?_⟩
  · have positions :
        (s.assemble run frame).stored.map (·.position) = s.stored.map (·.position) := by
      rw [Fragments.assemble, List.map_map]
      refine List.map_congr_left fun f _ => ?_
      simp only [Function.comp_apply]
      split <;> rfl
    rw [positions]
    exact consistent.distinct
  · change (s.completed ++ [s.message run frame]).Pairwise _
    rw [List.pairwise_append]
    refine ⟨consistent.apart, List.pairwise_singleton _ _, ?_⟩
    intro m member last is t inside
    rw [List.mem_singleton.mp is, now]
    apply Bool.eq_false_iff.mpr
    intro covered
    obtain ⟨-, -, -, -, outside⟩ := consistent.waits (whole.edges_at covered)
    rw [outside m member] at inside
    cases inside

theorem Consistent.search (consistent : Consistent arrivals s) (t : UInt32)
    (frame : FrameNumber) : Consistent arrivals (s.reassemble t frame).1 := by
  unfold reassemble
  split
  · exact consistent
  · split
    · exact consistent
    · rename_i run found
      exact consistent.assemble ((runAround?_eq_some_iff consistent.marked).mp found).1 frame

theorem Consistent.again (consistent : Consistent arrivals s) {known : Fragment}
    (here : s.fragment? a.position = some known) : Consistent (arrivals ++ [a]) s := by
  have same : held? (arrivals ++ [a]) = held? arrivals := by
    funext t
    rw [held?_append]
    split
    · rename_i place
      have before := consistent.held a.position
      rw [here] at before
      obtain ⟨b, first, -⟩ := Option.map_eq_some_iff.mp before.symm
      rw [← place, first]
      rfl
    · exact Option.or_none
  have edges : edgesOf (arrivals ++ [a]) = edgesOf arrivals := by
    funext t
    simp only [edgesOf, same]
  have contents : contentOf (arrivals ++ [a]) = contentOf arrivals := by
    funext run
    simp only [contentOf, same]
  obtain ⟨⟨marked, held, sound⟩, descending, ascending, distinct, apart⟩ := consistent
  rw [← same] at held
  rw [← edges, ← contents] at sound
  exact ⟨⟨marked, held, sound⟩, descending, ascending, distinct, apart⟩

theorem Consistent.first (consistent : Consistent arrivals s)
    (new : s.fragment? a.position = none) : Consistent (arrivals ++ [a]) (s.added a) := by
  have unmarked : s.waiting? a.position = none := by simp [waiting?, new]
  have added : s.added a =
      { s with
        firsts := if a.isFirst then insertDescending a.position s.firsts else s.firsts
        lasts := if a.isLast then insertAscending a.position s.lasts else s.lasts
        stored := s.stored ++ [a.fragment] } := by
    simp only [Fragments.added, add, new]
    rfl
  refine ⟨consistent.toStores.added new, ?_, ?_, ?_, ?_⟩
  · rw [added]
    simp only
    split
    · refine descending_insert ?_ consistent.descending
      intro there
      obtain ⟨e, found, -⟩ := (consistent.marked.firsts _).mp there
      rw [unmarked] at found
      cases found
    · exact consistent.descending
  · rw [added]
    simp only
    split
    · refine ascending_insert ?_ consistent.ascending
      intro there
      obtain ⟨e, found, -⟩ := (consistent.marked.lasts _).mp there
      rw [unmarked] at found
      cases found
    · exact consistent.ascending
  · rw [added, List.map_append, List.nodup_append]
    refine ⟨consistent.distinct, List.nodup_singleton _, ?_⟩
    intro p there q last same
    rw [List.map_singleton, List.mem_singleton] at last
    rw [same, last] at there
    exact absurd there (find?_key_eq_none_iff.mp new)
  · rw [completed_added]
    exact consistent.apart

theorem Consistent.call (consistent : Consistent arrivals s) (c : Call) :
    Consistent (arrivals ++ c.arrival?.toList) (s.call c) := by
  cases c with
  | add a =>
    change Consistent (arrivals ++ [a]) (s.added a)
    cases here : s.fragment? a.position with
    | none => exact consistent.first here
    | some known =>
      have same : s.added a = s := add_known here
      rw [same]
      exact consistent.again here
  | search t frame =>
    change Consistent (arrivals ++ []) (s.reassemble t frame).1
    rw [List.append_nil]
    exact consistent.search t frame

/-- What is stored, what is marked and what is completed say the same, and nothing that was stored
is lost, doubled or in two messages. -/
structure Accounted (arrivals : List Arrival) (s : Fragments) : Prop where
  descending : s.firsts.Pairwise (· > ·)
  firsts : ∀ t, t ∈ s.firsts ↔
    ∃ f ∈ s.stored, f.position = t ∧ f.isConsumed = false ∧ f.isFirst = true
  ascending : s.lasts.Pairwise (· < ·)
  lasts : ∀ t, t ∈ s.lasts ↔
    ∃ f ∈ s.stored, f.position = t ∧ f.isConsumed = false ∧ f.isLast = true
  /-- Each position is stored once, as it came first. -/
  distinct : (s.stored.map (·.position)).Nodup
  stored : ∀ t, t ∈ s.stored.map (·.position) ↔ t ∈ arrivals.map (·.position)
  first : ∀ f ∈ s.stored, ∃ a, held? arrivals f.position = some a ∧
    f = if f.isConsumed then a.fragment.consumed else a.fragment
  consumed : ∀ f ∈ s.stored, f.isConsumed = true ↔ ∃ m ∈ s.completed, m.contains f.position = true
  apart : s.completed.Pairwise fun m other => ∀ t, ¬ (m.contains t = true ∧ other.contains t = true)
  covered : ∀ m ∈ s.completed, ∀ t, m.contains t = true → t ∈ s.stored.map (·.position)
  data : ∀ m ∈ s.completed, m.data = (arc m.first m.last).flatMap (payloadAt arrivals)
  /-- The octets of the messages and those that wait are the octets that were stored. -/
  octets : (s.completed.flatMap (·.data) ++ s.stored.flatMap fun f => f.payload.getD []).Perm
    ((s.stored.map (·.position)).flatMap (payloadAt arrivals))

theorem mem_stored_iff (distinct : (s.stored.map (·.position)).Nodup) {f : Fragment} :
    f ∈ s.stored ↔ s.fragment? f.position = some f :=
  ⟨fun there => (find?_key_eq_some_iff distinct).mpr ⟨there, rfl⟩, List.mem_of_find?_eq_some⟩

theorem waiting?_eq_some_iff (distinct : (s.stored.map (·.position)).Nodup) {P : Edges → Prop} :
    (∃ e, s.waiting? t = some e ∧ P e) ↔
      ∃ f ∈ s.stored, f.position = t ∧ f.isConsumed = false ∧ P ⟨f.isFirst, f.isLast⟩ := by
  constructor
  · rintro ⟨e, found, holds⟩
    obtain ⟨f, here, fresh, rfl⟩ := fragment?_of_waiting? found
    obtain ⟨there, place⟩ := (find?_key_eq_some_iff distinct).mp here
    exact ⟨f, there, place, fresh, holds⟩
  · rintro ⟨f, there, rfl, fresh, holds⟩
    refine ⟨_, ?_, holds⟩
    rw [waiting?, (mem_stored_iff distinct).mp there, Option.bind_some, fresh]
    rfl

theorem Consistent.consumed (consistent : Consistent arrivals s) {f : Fragment}
    (there : f ∈ s.stored) :
    ∃ a, held? arrivals f.position = some a ∧
      f.isConsumed = s.completed.any (·.contains f.position) ∧
      f = if f.isConsumed then a.fragment.consumed else a.fragment := by
  have here := (mem_stored_iff consistent.distinct).mp there
  rw [consistent.held] at here
  obtain ⟨a, first, same⟩ := Option.map_eq_some_iff.mp here
  refine ⟨a, first, ?_⟩
  cases used : s.completed.any (·.contains f.position) <;> rw [used] at same <;>
    exact same ▸ ⟨rfl, rfl⟩

theorem Consistent.covered (consistent : Consistent arrivals s) {m : Message}
    (member : m ∈ s.completed) (inside : m.contains t = true) :
    t ∈ s.stored.map (·.position) := by
  obtain ⟨a, first, -⟩ := edgesOf_of_held? ((consistent.sound m member).1.edges_at inside)
  have here := consistent.held t
  rw [first, Option.map_some] at here
  obtain ⟨there, place⟩ := (find?_key_eq_some_iff consistent.distinct).mp here
  exact List.mem_map.mpr ⟨_, there, place⟩

theorem data_eq {m : Message} (content : m.content = contentOf arrivals m.run) :
    m.data = (arc m.first m.last).flatMap (payloadAt arrivals) := by
  have data := congrArg Content.data content
  simp only [Message.content, contentOf] at data
  rw [data, List.flatMap_def, List.flatMap_def, List.map_filterMap]
  change _ = ((arc m.run.first m.run.last).map _).flatten
  induction arc m.run.first m.run.last with
  | nil => rfl
  | cons t rest ih =>
    rw [List.filterMap_cons, List.map_cons, List.flatten_cons, payloadAt, ← ih]
    cases held? arrivals t <;> rfl

theorem Consistent.positions (consistent : Consistent arrivals s) :
    (s.completed.flatMap (fun m => arc m.first m.last) ++
        (s.stored.filter fun f => !f.isConsumed).map (·.position)).Perm
      (s.stored.map (·.position)) := by
  have inMessage : ∀ t, t ∈ s.completed.flatMap (fun m => arc m.first m.last) ↔
      s.completed.any (·.contains t) = true := by
    intro t
    simp only [List.mem_flatMap, List.any_eq_true, ← onArc_iff_mem, Message.contains]
  have messages : (s.completed.flatMap fun m => arc m.first m.last).Nodup := by
    refine List.nodup_flatMap.mpr ⟨fun m _ => nodup_arc m.first m.last, consistent.apart.imp ?_⟩
    intro m other apart t inside insideToo
    have outside := apart t (onArc_iff_mem.mpr inside)
    rw [Message.contains, onArc_iff_mem.mpr insideToo] at outside
    cases outside
  have waiting : ((s.stored.filter fun f => !f.isConsumed).map (·.position)).Nodup :=
    consistent.distinct.sublist ((List.filter_sublist).map _)
  have meetNot : ∀ t ∈ s.completed.flatMap (fun m => arc m.first m.last),
      ∀ u ∈ (s.stored.filter fun f => !f.isConsumed).map (·.position), t ≠ u := by
    rintro t inside u waits rfl
    obtain ⟨f, there, rfl⟩ := List.mem_map.mp waits
    obtain ⟨stored, fresh⟩ := List.mem_filter.mp there
    obtain ⟨a, -, used, -⟩ := consistent.consumed stored
    rw [used, (inMessage _).mp inside] at fresh
    cases fresh
  refine (List.perm_ext_iff_of_nodup
    (List.nodup_append.mpr ⟨messages, waiting, meetNot⟩) consistent.distinct).mpr fun t => ?_
  rw [List.mem_append, inMessage]
  constructor
  · rintro (inside | waits)
    · obtain ⟨m, member, covered⟩ := List.any_eq_true.mp inside
      exact consistent.covered member covered
    · exact ((List.filter_sublist).map _).subset waits
  · intro stored
    obtain ⟨f, there, rfl⟩ := List.mem_map.mp stored
    obtain ⟨a, -, used, -⟩ := consistent.consumed there
    cases fresh : f.isConsumed with
    | true => exact Or.inl (used ▸ fresh)
    | false => exact Or.inr (List.mem_map_of_mem (List.mem_filter.mpr ⟨there, by simp [fresh]⟩))

theorem Consistent.payloads (consistent : Consistent arrivals s) :
    (s.stored.flatMap fun f => f.payload.getD []) =
      ((s.stored.filter fun f => !f.isConsumed).map (·.position)).flatMap (payloadAt arrivals) := by
  have each : ∀ f ∈ s.stored, f.payload.getD [] =
      if f.isConsumed then [] else payloadAt arrivals f.position := by
    intro f there
    obtain ⟨a, first, -, same⟩ := consistent.consumed there
    cases used : f.isConsumed with
    | true =>
      rw [used] at same
      rw [same]
      rfl
    | false =>
      rw [used] at same
      rw [payloadAt, first, same]
      rfl
  generalize s.stored = stored at each
  induction stored with
  | nil => rfl
  | cons f rest ih =>
    rw [List.flatMap_cons, each f List.mem_cons_self, List.filter_cons,
      ih fun g there => each g (List.mem_cons_of_mem _ there)]
    cases f.isConsumed <;> rfl

theorem Consistent.accounted (consistent : Consistent arrivals s) : Accounted arrivals s := by
  refine ⟨consistent.descending, ?_, consistent.ascending, ?_, consistent.distinct, ?_, ?_, ?_, ?_,
    fun m member t => consistent.covered member,
    fun m member => data_eq (consistent.sound m member).2, ?_⟩
  · intro t
    rw [consistent.marked.firsts]
    exact waiting?_eq_some_iff consistent.distinct
  · intro t
    rw [consistent.marked.lasts]
    exact waiting?_eq_some_iff consistent.distinct
  · intro t
    have held := consistent.held t
    rw [← not_iff_not, ← held?_eq_none_iff, ← find?_key_eq_none_iff]
    change s.fragment? t = none ↔ _
    rw [held, Option.map_eq_none_iff]
  · intro f there
    obtain ⟨a, first, -, same⟩ := consistent.consumed there
    exact ⟨a, first, same⟩
  · intro f there
    obtain ⟨a, -, used, -⟩ := consistent.consumed there
    rw [used, List.any_eq_true]
  · refine consistent.apart.imp fun apart t both => ?_
    rw [apart t both.1] at both
    cases both.2
  · have messages : s.completed.flatMap (·.data) =
        (s.completed.flatMap fun m => arc m.first m.last).flatMap (payloadAt arrivals) := by
      rw [List.flatMap_assoc]
      exact List.flatMap_congr fun m member => data_eq (consistent.sound m member).2
    rw [messages, consistent.payloads, ← List.flatMap_append]
    exact consistent.positions.flatMap_right _

/- What a call keeps. -/

/-- A later state. A fragment that is part of a message has given its payload away; nothing else of
it changes. -/
structure Retains (s after : Fragments) : Prop where
  stored : ∀ t f, s.fragment? t = some f →
    ∃ g, after.fragment? t = some g ∧ (g = f ∨ g = f.consumed)
  completed : s.completed <+: after.completed

theorem Retains.refl (s : Fragments) : s.Retains s :=
  ⟨fun _ f there => ⟨f, there, Or.inl rfl⟩, List.prefix_rfl⟩

theorem Retains.trans {s' s'' : Fragments} (first : s.Retains s') (second : s'.Retains s'') :
    s.Retains s'' := by
  refine ⟨?_, first.completed.trans second.completed⟩
  intro t f there
  obtain ⟨g, now, kept⟩ := first.stored t f there
  obtain ⟨last, later, keptToo⟩ := second.stored t g now
  refine ⟨last, later, ?_⟩
  rcases kept with rfl | rfl
  · exact keptToo
  · exact Or.inr (keptToo.elim id id)

theorem retains_call (s : Fragments) (c : Call) : s.Retains (s.call c) := by
  cases c with
  | add a =>
    refine ⟨fun t f there => ⟨f, fragment?_added_of_some there a, Or.inl rfl⟩, ?_⟩
    change s.completed <+: (s.added a).completed
    exact (completed_added s a).symm ▸ List.prefix_rfl
  | search t frame =>
    change s.Retains (s.reassemble t frame).1
    unfold reassemble
    split
    · exact .refl s
    · split
      · exact .refl s
      · rename_i run _
        refine ⟨?_, List.prefix_append _ _⟩
        intro u f there
        refine ⟨_, (fragment?_assemble run).trans (congrArg _ there), ?_⟩
        split
        · exact Or.inr rfl
        · exact Or.inl rfl

theorem retains_receive (s : Fragments) (a : Arrival) : s.Retains (s.receive a).1 := by
  have added : s.Retains (s.added a) := retains_call s (.add a)
  have arrived : s.Retains (s.arrive a).1 :=
    added.trans (retains_call _ (.search a.position a.frame))
  unfold receive
  split
  · exact added
  · exact arrived

end Fragments

namespace Store

def call (s : Store) (key : MessageKey) : Call → Store
  | .add a => (s.add key a.position a.isFirst a.isLast a.payload a.frame).1
  | .search t frame => (s.reassemble key t frame).1

def callAll (s : Store) (calls : List (MessageKey × Call)) : Store :=
  calls.foldl (fun s c => s.call c.1 c.2) s

def arrivalsOf (calls : List (MessageKey × Call)) (key : MessageKey) : List Arrival :=
  calls.filterMap fun c => if c.1 = key then c.2.arrival? else none

variable {s : Store} {key other : MessageKey}

theorem held_call (c : Call) :
    (s.call key c).held other = if key = other then (s.held key).call c else s.held other := by
  cases c with
  | add a =>
    change (s.add key _ _ _ _ _).1.held other = _
    rw [held, fragments?_add]
    split <;> rfl
  | search t frame =>
    change (s.reassemble key t frame).1.held other =
      if key = other then ((s.held key).reassemble t frame).1 else s.held other
    unfold reassemble
    cases known : s.fragments? key with
    | none =>
      have nothing : s.held key = .empty := by
        rw [held, known]
        rfl
      dsimp only
      split
      · rename_i same
        rw [← same, nothing]
        rfl
      · rfl
    | some fragments =>
      have here : s.held key = fragments := by
        rw [held, known]
        rfl
      simp only
      rw [here, held, fragments?, Keyed.get?_put]
      split <;> rfl

theorem consistent_callAll (calls : List (MessageKey × Call)) (key : MessageKey) :
    Fragments.Consistent (arrivalsOf calls key) ((empty.callAll calls).held key) := by
  have onward : ∀ (s : Store) (arrivals : List Arrival),
      Fragments.Consistent arrivals (s.held key) →
        Fragments.Consistent (arrivals ++ arrivalsOf calls key) ((s.callAll calls).held key) := by
    induction calls with
    | nil =>
      intro s arrivals consistent
      rw [arrivalsOf, List.filterMap_nil, List.append_nil]
      exact consistent
    | cons c rest ih =>
      intro s arrivals consistent
      have next : Fragments.Consistent
          (arrivals ++ (if c.1 = key then c.2.arrival? else none).toList)
          ((s.call c.1 c.2).held key) := by
        rw [held_call]
        split
        · rename_i own
          rw [own]
          exact consistent.call c.2
        · rw [Option.toList_none, List.append_nil]
          exact consistent
      have later := ih (s.call c.1 c.2) _ next
      have arrivals_eq : arrivalsOf (c :: rest) key =
          (if c.1 = key then c.2.arrival? else none).toList ++ arrivalsOf rest key := by
        rw [arrivalsOf, List.filterMap_cons]
        cases (if c.1 = key then c.2.arrival? else none) <;> rfl
      rw [arrivals_eq, ← List.append_assoc]
      exact later
  exact onward empty [] Fragments.consistent_empty

/-- After any calls, in any order and for any fragments. -/
theorem accounted_callAll (calls : List (MessageKey × Call)) (key : MessageKey) :
    Fragments.Accounted (arrivalsOf calls key) ((empty.callAll calls).held key) :=
  (consistent_callAll calls key).accounted

/-- A stray first fragment, a repeated position, a search around nothing, and a message on both
sides of the wrap that is looked for late. -/
example :
    let calls : List (MessageKey × Call) :=
      [(wrapKey, .add ⟨0, 1, false, true, [67]⟩), (wrapKey, .search 7 1),
        (wrapKey, .add ⟨4294967294, 2, true, false, [64]⟩),
        (wrapKey, .add ⟨4294967295, 2, true, false, [65, 66]⟩),
        (wrapKey, .add ⟨0, 3, true, true, [90]⟩), (wrapKey, .search 0 9)]
    let s := (empty.callAll calls).held wrapKey
    s.firsts = [4294967294] ∧ s.lasts = [] ∧
      s.completed = [⟨4294967295, 0, 9, [2, 1], [65, 66, 67]⟩] := by decide

end Store

end SctpTrace.Reassembly
