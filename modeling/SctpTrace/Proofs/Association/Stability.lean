import SctpTrace.Proofs.Association.Unique
import Mathlib.Data.List.TakeWhile

/-!
Whether a packet that shows the same again is resolved to the same flow. Two different tags are
known to one association only. Under one tag the first listed association that the packet matches is
found, and an association that gets its second tag matches more packets than before. So the answer
stays exactly as long as no association ahead of it comes to match (`answered_alike_iff`), and it
changes when one of them does (`answers_change`).
-/
namespace SctpTrace

/- The first entry of a list that yields something. -/

section First

variable {l l' : List Nat} {g : Nat → Option Flow} {f : Flow} {i j : Nat}

theorem findSome?_eq_some_iff_ahead (own : ∀ j h, g j = some h → h.index = j) :
    l.findSome? g = some f ↔
      f.index ∈ l ∧ g f.index = some f ∧ ∀ j ∈ l.takeWhile (· != f.index), g j = none := by
  induction l with
  | nil => simp
  | cons first rest ih =>
    rw [List.findSome?_cons, List.takeWhile_cons]
    by_cases here : first = f.index
    · subst here
      cases found : g f.index with
      | none =>
        simp only [reduceCtorEq, false_and, and_false, iff_false]
        intro later
        have place := (ih.mp later).2.1
        rw [found] at place
        cases place
      | some h => simp
    · cases found : g first with
      | none => simp [ih, here, Ne.symm here, found]
      | some h =>
        have place := own first h found
        have other : h ≠ f := by
          rintro rfl
          exact here place.symm
        simp [here, found, other]

theorem takeWhile_of_longer (member : i ∈ l) (longer : l <+: l') :
    l'.takeWhile (· != i) = l.takeWhile (· != i) := by
  obtain ⟨more, rfl⟩ := longer
  induction l with
  | nil => cases member
  | cons first rest ih =>
    rw [List.cons_append, List.takeWhile_cons, List.takeWhile_cons]
    split
    · rename_i other
      have later := (List.mem_cons.mp member).resolve_left (Ne.symm (bne_iff_ne.mp other))
      rw [ih later]
    · rfl

theorem ne_of_mem_takeWhile (member : j ∈ l.takeWhile (· != i)) : j ≠ i := by
  simpa using List.mem_takeWhile_imp member

theorem mem_takeWhile_or (here : i ∈ l) (there : j ∈ l) (different : i ≠ j) :
    i ∈ l.takeWhile (· != j) ∨ j ∈ l.takeWhile (· != i) := by
  induction l with
  | nil => cases here
  | cons first rest ih =>
    simp only [List.takeWhile_cons]
    grind

end First

theorem Observation.shown_of_single (o : Observation) {tag : UInt32} (known : tag ≠ 0)
    (single : o.probes = [tag]) : (o.destinationTag ≠ 0 ∨ o.sourceTag ≠ 0) ∧
      (o.destinationTag ≠ 0 → o.destinationTag = tag) ∧ (o.sourceTag ≠ 0 → o.sourceTag = tag) := by
  grind [Observation.probes]

namespace Association

variable {a b c : Association} {o : Observation} {d e : Direction} {tag : UInt32}

theorem matchesIn_of_grows (matching : a.matchesIn o d = true) (grows : a.Grows b)
    (covers : b.Covers o d) (shows : o.destinationTag ≠ 0 ∨ o.sourceTag ≠ 0) :
    b.matchesIn o d = true := by
  obtain ⟨source, destination, hosts, known, knownToo⟩ := grows.key d
  obtain ⟨sourceNow, destinationNow, shown, shownToo⟩ := covers
  rw [matchesIn_iff, TagPair.agree_iff, Observation.tags] at *
  grind

/-- The direction is the same as before, unless the ports are equal and the association has one tag
for both of its ends: then the packet is read forward. -/
theorem direction?_of_grows (matching : a.direction? o = some d) (grows : a.Grows b)
    (covers : b.Covers o d) (shows : o.destinationTag ≠ 0 ∨ o.sourceTag ≠ 0)
    (sides : o.sourcePort = o.destinationPort → b.destinationTag = b.sourceTag → d = .forward) :
    b.direction? o = some d := by
  obtain ⟨agrees, first⟩ := direction?_eq_some_iff.mp matching
  refine direction?_eq_some_iff.mpr ⟨matchesIn_of_grows agrees grows covers shows, ?_⟩
  rintro rfl
  have missed := Bool.eq_false_iff.mp (first rfl)
  rw [Bool.eq_false_iff]
  intro forward
  apply missed
  obtain ⟨-, -, hosts, known, knownToo⟩ := grows.key .forward
  obtain ⟨source, destination, shown, shownToo⟩ := covers
  rw [matchesIn_iff, TagPair.agree_iff, Observation.tags] at *
  simp only [key] at *
  grind

theorem matchesIn_of_covers (covers : a.Covers o d) (complete : a.isComplete = true)
    (shows : o.destinationTag ≠ 0 ∨ o.sourceTag ≠ 0) : a.matchesIn o d = true := by
  obtain ⟨source, destination, shown, shownToo⟩ := covers
  rw [isComplete_iff d] at complete
  rw [matchesIn_iff, TagPair.agree_iff, Observation.tags]
  grind

theorem matchesIn_of_equal (covers : a.Covers o d) (equal : a.destinationTag = a.sourceTag)
    (ports : o.sourcePort = o.destinationPort) (shows : o.destinationTag ≠ 0 ∨ o.sourceTag ≠ 0) :
    a.matchesIn o .forward = true := by
  have same : a.key .forward = a.key d := by
    rw [← covers.sourcePort, ← covers.destinationPort, equal_ports_iff d] at ports
    cases d <;> simp [key, ports, equal]
  obtain ⟨source, destination, shown, shownToo⟩ := covers
  rw [← same] at source destination shown shownToo
  refine matchesIn_of_covers ⟨source, destination, shown, shownToo⟩ ?_ shows
  rw [isComplete_iff .forward]
  simp only [key] at *
  grind

/-- An association that a packet did not match, and matches now, has learned its second tag. -/
theorem covers_of_direction? (before : a.direction? o = none) (grows : a.Grows b)
    (now : b.direction? o = some d) (known : tag ≠ 0) (holds : a.Holds tag) :
    b.isComplete = true ∧ b.Covers o d := by
  have missed := Bool.eq_false_iff.mp (direction?_eq_none_iff.mp before d)
  have agrees := b.matchesIn_of_direction? now
  obtain ⟨source, destination, hosts, kept, keptToo⟩ := grows.key d
  rw [holds_iff d known] at holds
  rw [ne_eq, matchesIn_iff, TagPair.agree_iff, Observation.tags] at missed
  rw [matchesIn_iff, TagPair.agree_iff, Observation.tags] at agrees
  have complete : b.isComplete = true := by
    rw [isComplete_iff d]
    grind
  refine ⟨complete, ?_⟩
  rw [isComplete_iff d] at complete
  constructor <;> grind

theorem sides_of_key (same : a.key d = o.key) :
    (a.sourcePort = a.destinationPort ↔ o.sourcePort = o.destinationPort) ∧
      (a.destinationTag = a.sourceTag ↔ o.destinationTag = o.sourceTag) := by
  rw [← equal_ports_iff d, ← equal_tags_iff d, same]
  exact ⟨Iff.rfl, Iff.rfl⟩

theorem direction_of_key (same : a.key d = a.key e)
    (apart : ¬ (a.sourcePort = a.destinationPort ∧ a.destinationTag = a.sourceTag)) : d = e := by
  cases d <;> cases e <;> simp only [key, PairKey.mk.injEq, TagPair.mk.injEq] at same ⊢ <;> grind

theorem direction?_of_equal (known : tag ≠ 0)
    (equal : (a.key d).tags = ⟨tag, tag⟩) (ports : a.ports = o.ports) (single : o.probes = [tag]) :
    a.direction? o ≠ none := by
  have complete : a.isComplete = true := (isComplete_iff d).mpr (by simp [equal, known])
  obtain ⟨destinationTag, sourceTag⟩ := TagPair.mk.inj (tags_key equal .forward)
  obtain ⟨shows, shown, shownToo⟩ := o.shown_of_single known single
  have covers : ∃ d, a.Covers o d := by
    rcases Sym2.eq_iff.mp ports with ⟨source, destination⟩ | ⟨source, destination⟩
    · exact ⟨.forward, source, destination, fun known => destinationTag.trans (shown known).symm,
        fun known => sourceTag.trans (shownToo known).symm⟩
    · exact ⟨.reverse, destination, source, fun known => sourceTag.trans (shown known).symm,
        fun known => destinationTag.trans (shownToo known).symm⟩
  obtain ⟨d, covers⟩ := covers
  intro absent
  have agrees := matchesIn_of_covers covers complete shows
  rw [direction?_eq_none_iff.mp absent] at agrees
  cases agrees

end Association

namespace AssociationTable

def ahead (t : AssociationTable) (o : Observation) (place : Nat) : List Nat :=
  o.probes.flatMap fun tag =>
    (t.bucket (.of o.sourcePort o.destinationPort tag)).takeWhile (· != place)

/-- Nothing between two states of the table has given a packet to another flow. It shows two
different tags, or no association that was listed ahead of its own has come to know both of its tags
and what the packet shows. On equal ports an association that has one tag for both of its ends is
read forward by a packet with one tag, and in reverse by a packet with both. -/
structure Undisturbed (before after : AssociationTable) (o : Observation) (f : Flow) : Prop where
  settled : o.showsBoth = true ∧ o.destinationTag ≠ o.sourceTag ∨
    ∀ j ∈ before.ahead o f.index, ∀ a : Association, after.associations[j]? = some a →
      a.isComplete = true → ∀ d, ¬ a.Covers o d
  sides : o.sourcePort = o.destinationPort → ∀ a : Association,
    after.associations[f.index]? = some a → a.destinationTag = a.sourceTag →
      f.direction = if o.showsBoth then .reverse else .forward

variable {t t' : AssociationTable} {a b c : Association} {o o' : Observation} {f g : Flow}
  {frame : FrameNumber} {tag : UInt32} {d : Direction} {i j : Nat}

/- A packet that shows one tag only, be it for both ends. -/

theorem probes_single (shows : o.destinationTag ≠ 0 ∨ o.sourceTag ≠ 0)
    (one : ¬ (o.showsBoth = true ∧ o.destinationTag ≠ o.sourceTag)) :
    ∃ tag, tag ≠ 0 ∧ o.probes = [tag] := by
  simp only [Observation.showsBoth, Bool.and_eq_true, bne_iff_ne] at one
  unfold Observation.probes
  split
  · grind
  · split
    · grind
    · split
      · exact ⟨o.destinationTag, by grind, rfl⟩
      · grind

theorem lookup?_single (single : o.probes = [tag]) :
    t.lookup? o = (t.lookupPair? o).or (t.lookupSingle? o tag) := by
  rw [lookup?, single, List.findSome?_singleton]

theorem ahead_single (single : o.probes = [tag]) :
    t.ahead o i =
      (t.bucket (.of o.sourcePort o.destinationPort tag)).takeWhile (· != i) := by
  rw [ahead, single, List.flatMap_singleton]

theorem index_of_candidate? (found : t.candidate? o i = some f) : f.index = i := by
  simp only [candidate?, Option.bind_eq_bind, Option.bind_eq_some_iff] at found
  obtain ⟨a, -, direction, -, same⟩ := found
  cases same
  rfl

theorem lookupSingle?_eq_some_iff : t.lookupSingle? o tag = some f ↔
    f.index ∈ t.bucket (.of o.sourcePort o.destinationPort tag) ∧
      t.candidate? o f.index = some f ∧
      ∀ j ∈ (t.bucket (.of o.sourcePort o.destinationPort tag)).takeWhile (· != f.index),
        t.candidate? o j = none :=
  findSome?_eq_some_iff_ahead fun _ _ => index_of_candidate?

theorem matching_of_candidate? (found : t.candidate? o f.index = some f)
    (here : t.associations[f.index]? = some a) : a.direction? o = some f.direction := by
  simp only [candidate?, here, Option.bind_eq_bind, Option.bind_some,
    Option.bind_eq_some_iff] at found
  obtain ⟨direction, matching, same⟩ := found
  have way : direction = f.direction := congrArg Flow.direction (Option.some.inj same)
  rw [matching, way]

theorem candidate?_congr (same : t'.associations[i]? = t.associations[i]?) :
    t'.candidate? o i = t.candidate? o i := by
  rw [candidate?, candidate?, same]

theorem candidate?_eq_none_iff (here : t.associations[i]? = some a) :
    t.candidate? o i = none ↔ a.direction? o = none := by
  cases found : a.direction? o <;> simp [candidate?, here, found]

theorem candidate?_eq_some (here : t.associations[f.index]? = some a)
    (matching : a.direction? o = some f.direction) : t.candidate? o f.index = some f := by
  simp [candidate?, here, matching]

theorem Extends.ahead (extends_ : t.Extends t') (single : o.probes = [tag])
    (listed : i ∈ t.bucket (.of o.sourcePort o.destinationPort tag)) :
    t'.ahead o i = t.ahead o i := by
  rw [ahead_single single, ahead_single single]
  exact takeWhile_of_longer listed (extends_.buckets _)

/-- The first answer to a packet with one tag: its place is listed under the tag, no place ahead of
it matches, and the association there matched the packet before it learned from it. -/
structure FirstAnswer (t : AssociationTable) (o : Observation) (tag : UInt32) (f : Flow) :
    Prop where
  listed : f.index ∈ t.bucket (.of o.sourcePort o.destinationPort tag)
  ahead : ∀ j ∈ t.ahead o f.index, t.candidate? o j = none
  matched : ∃ a b : Association, a.direction? o = some f.direction ∧
    t.associations[f.index]? = some b ∧ a.Grows b ∧ b.Covers o f.direction

theorem direction?_fresh (t : AssociationTable) (frame : FrameNumber) (o : Observation) :
    (t.fresh frame o).direction? o = some .forward := by
  have forward : (t.fresh frame o).matchesForward o = true := by
    simp [fresh, Association.matchesForward, TagPair.agree, Tag.agree, Observation.tags]
  rw [Association.direction?, if_pos forward]

theorem Exact.firstAnswer (exact : t.Exact) (frame : FrameNumber) (single : o.probes = [tag])
    (absent : t.lookupPair? o = none) :
    (t.assign frame o).1.FirstAnswer o tag (t.assign frame o).2 := by
  have grown := t.extends_assign frame o
  have whole : t.lookup? o = t.lookupSingle? o tag := by
    rw [lookup?_single single, absent, Option.none_or]
  have probed : tag ∈ o.probes := by simp [single]
  obtain ⟨b, now, covers⟩ := exact.covers_assign frame o
  have others : ∀ j, j ≠ (t.assign frame o).2.index →
      (t.assign frame o).1.candidate? o j = t.candidate? o j :=
    fun j other => candidate?_congr (associations_assign other)
  cases found : t.lookup? o with
  | some f =>
    obtain ⟨a, there, how⟩ := exact.lookup?_cases found
    obtain ⟨flow, after⟩ := assign_known frame found there
    rw [flow] at now covers others ⊢
    rw [whole, lookupSingle?_eq_some_iff] at found
    obtain ⟨listed, candidate, before⟩ := found
    refine ⟨(grown.buckets _).subset listed, ?_, a, b, ?_, now, ?_, covers⟩
    · intro j member
      rw [grown.ahead single listed, ahead_single single] at member
      rw [others j (ne_of_mem_takeWhile member)]
      exact before j member
    · exact matching_of_candidate? candidate there
    · rw [after] at now
      cases now
      exact Association.grows_learned
  | none =>
    obtain ⟨flow, after⟩ := assign_new frame found
    have exactAfter : (t.assign frame o).1.Exact := exact.assign
    rw [whole, lookupSingle?, List.findSome?_eq_none_iff] at found
    rw [flow] at now covers others ⊢
    rw [after] at now
    cases now
    refine ⟨?_, ?_, _, _, direction?_fresh t frame o, after, .refl _, covers⟩
    · rw [exactAfter.single]
      refine ⟨_, after, rfl, ?_⟩
      rw [Observation.mem_probes_iff] at probed
      exact probed
    · intro j member
      rw [ahead_single single] at member
      have different := ne_of_mem_takeWhile member
      rw [others j different]
      apply found
      rw [exact.single]
      have held := (exactAfter.single _ _ _ _).mp ((List.takeWhile_sublist _).subset member)
      rcases exact.heldAt_assign held with before | ⟨place, -⟩
      · exact before
      · rw [flow] at place
        exact absurd place different

theorem FirstAnswer.later_iff (first : t.FirstAnswer o tag f) (exact : t.Exact)
    (single : o.probes = [tag]) (known : tag ≠ 0) (shows : o.destinationTag ≠ 0 ∨ o.sourceTag ≠ 0)
    (one : o.showsBoth = false) (extends_ : t.Extends t') :
    t'.lookupSingle? o tag = some f ↔ Undisturbed t t' o f := by
  obtain ⟨a, b, matching, here, grows, covers⟩ := first.matched
  obtain ⟨c, now, grown⟩ := extends_.associations _ b here
  have stays := extends_.ahead single first.listed
  rw [lookupSingle?_eq_some_iff, ← ahead_single single, stays]
  constructor
  · rintro ⟨-, candidate, ahead⟩
    refine ⟨Or.inr ?_, ?_⟩
    · intro j member d there complete direction covered
      have missed := (candidate?_eq_none_iff there).mp (ahead j member)
      have agrees := Association.matchesIn_of_covers covered complete shows
      rw [Association.direction?_eq_none_iff.mp missed] at agrees
      cases agrees
    · intro same d there equal
      rw [now] at there
      cases there
      have forward := Association.matchesIn_of_equal (grown.covers covers) equal same shows
      have matched := Association.direction?_eq_some_iff.mp (matching_of_candidate? candidate now)
      cases way : f.direction with
      | forward =>
        rw [one]
        rfl
      | reverse =>
        rw [matched.2 way] at forward
        cases forward
  · intro undisturbed
    refine ⟨(extends_.buckets _).subset first.listed, ?_, ?_⟩
    · apply candidate?_eq_some now
      refine Association.direction?_of_grows matching (grows.trans grown) (grown.covers covers)
        shows ?_
      intro same equal
      rw [undisturbed.sides same c now equal, one]
      rfl
    · intro j member
      have listed := member
      rw [ahead_single single] at listed
      obtain ⟨a, before, -, holds⟩ :=
        (exact.single _ _ _ _).mp ((List.takeWhile_sublist _).subset listed)
      obtain ⟨b, after, more⟩ := extends_.associations j a before
      rw [candidate?_eq_none_iff after]
      cases found : b.direction? o with
      | none => rfl
      | some direction =>
        have missed := (candidate?_eq_none_iff before).mp (first.ahead j member)
        -- An association ahead that matches by now has learned its second tag since.
        have settled := undisturbed.settled.resolve_left fun both => by simp [one] at both
        obtain ⟨complete, covered⟩ := Association.covers_of_direction? missed more found known holds
        exact absurd covered (settled j member b after complete direction)

/- A packet that shows one tag for both of its ends. -/

theorem Exact.listed_of_key (exact : t.Exact) {key : PairKey} (here : t.associations[i]? = some a)
    (complete : a.isComplete = true) (same : a.key d = key) :
    i ∈ t.bucket (.of key.sourcePort key.destinationPort key.tags.destination) := by
  rw [exact.single]
  subst same
  refine ⟨a, here, (a.ports_key d).symm, ?_⟩
  simp only [Association.isComplete, Bool.and_eq_true, bne_iff_ne] at complete
  cases d <;> simp [Association.key, Association.Holds, complete]

/-- What both tags lead to where they are equal: the first association listed under the tag that has
it for both of its ends, and on equal ports in reverse. -/
structure Earliest (t : AssociationTable) : Prop where
  first : ∀ key f, Keyed.get? key t.pair = some f → key.tags.destination = key.tags.source →
    ∀ j ∈ (t.bucket (.of key.sourcePort key.destinationPort key.tags.destination)).takeWhile
        (· != f.index),
      ∀ a : Association, t.associations[j]? = some a → a.isComplete = true → ∀ d, a.key d ≠ key
  reverse : ∀ key f, Keyed.get? key t.pair = some f → key.tags.destination = key.tags.source →
    key.sourcePort = key.destinationPort → f.direction = .reverse

/-- An association that gets its first tag for the second end too is listed ahead of every other one
that has it for both: the packet would have matched that one first. -/
theorem Exact.absent_ahead (exact : t.Exact)
    (here : (t.assign frame o).1.associations[(t.assign frame o).2.index]? = some a)
    (complete : a.isComplete = true)
    (changed : t.associations[(t.assign frame o).2.index]? ≠ some a) {key : PairKey}
    (own : a.key d = key)
    (ahead : j ∈ ((t.assign frame o).1.bucket (.of key.sourcePort key.destinationPort
      key.tags.destination)).takeWhile (· != (t.assign frame o).2.index))
    (there : t.associations[j]? = some b) (e : Direction) : b.key e ≠ key := by
  intro same
  have alike : a.key d = b.key e := own.trans same.symm
  cases found : t.lookup? o with
  | none =>
    obtain ⟨flow, after⟩ := assign_new frame found
    rw [flow, after] at here
    cases here
    have absent := (Option.or_eq_none_iff.mp found).1
    exact exact.key_ne_of_lookupPair? complete absent (covers_fresh t frame o) j b there d e alike
  | some f =>
    obtain ⟨c, before, how⟩ := exact.lookup?_cases found
    obtain ⟨flow, after⟩ := assign_known frame found before
    rw [flow] at here changed ahead
    rw [after] at here
    cases here
    have incomplete : c.isComplete = false := by
      rw [Bool.eq_false_iff]
      intro known
      rw [complete_learned known] at changed
      exact changed before
    -- What changed is the second tag, so the packet was not found by both of its tags.
    rcases how with ⟨-, known, -⟩ | ⟨absent, matching⟩
    · rw [incomplete] at known
      cases known
    obtain ⟨c', before', ports, held⟩ := exact.lookup?_sound found
    rw [before] at before'
    cases before'
    rcases shown_of_learned held incomplete complete with both | ⟨tag, tags, single⟩
    · exact exact.key_ne_of_lookupPair? both absent (Association.covers_learned matching) j b there
        d e alike
    rw [lookup?_single single, absent, Option.none_or, lookupSingle?_eq_some_iff] at found
    obtain ⟨listed, -, missed⟩ := found
    have portsToo : key.ports = o.ports := by
      rw [← own, Association.ports_key]
      exact ports
    have tagsToo : key.tags = ⟨tag, tag⟩ := own ▸ tags d
    have bucket : SingleKey.of key.sourcePort key.destinationPort key.tags.destination =
        .of o.sourcePort o.destinationPort tag :=
      SingleKey.of_eq_of_iff.mpr ⟨portsToo, congrArg TagPair.destination tagsToo⟩
    rw [bucket, takeWhile_of_longer listed ((t.extends_assign frame o).buckets _)] at ahead
    have known : tag ≠ 0 := by
      have first := ((Association.isComplete_iff d).mp complete).1
      rwa [tags d] at first
    have missed := (candidate?_eq_none_iff there).mp (missed j ahead)
    exact Association.direction?_of_equal known (same.symm ▸ tagsToo)
      (by rw [← b.ports_key e, same, portsToo]) single missed

theorem Earliest.assign (earliest : t.Earliest) (exact : t.Exact) :
    (t.assign frame o).1.Earliest := by
  obtain ⟨a, here, -⟩ := exact.covers_assign frame o
  refine ⟨?_, ?_⟩
  · intro key f found equal j member b there known e same
    rcases exact.pair_assign_cases here found with ⟨index, own, complete, changed, -⟩ | ⟨old, kept⟩
    · rw [index] at member
      rw [associations_assign (ne_of_mem_takeWhile member)] at there
      exact exact.absent_ahead here complete changed own member there e same
    · have before : t.associations[j]? = some b := by
        by_cases place : j = (t.assign frame o).2.index
        · rw [place, here] at there
          cases there
          rw [place]
          exact kept known ⟨e, same⟩
        · rwa [associations_assign place] at there
      obtain ⟨c, place, complete, own⟩ := exact.pair key f old
      rw [takeWhile_of_longer (exact.listed_of_key place complete own)
        ((t.extends_assign frame o).buckets _)] at member
      exact earliest.first key f old equal j member b before known e same
  · intro key f found equal ports
    rcases exact.pair_assign_cases here found with ⟨-, own, -, -, reverse⟩ | ⟨old, -⟩
    · cases way : f.direction with
      | reverse => rfl
      | forward =>
        rw [way] at own
        rw [← way]
        apply reverse
        subst own
        simp only [Association.key] at equal ports ⊢
        rw [equal, ports]
    · exact earliest.reverse key f old equal ports

theorem Reachable.earliest (reachable : t.Reachable) : t.Earliest := by
  obtain ⟨history, rfl⟩ := reachable
  have blank : empty.Earliest := by
    refine ⟨?_, ?_⟩ <;>
    · intro key f absent
      cases absent
  exact (resolveAll_induction (P := fun t => t.Exact ∧ t.Earliest) history
    (fun _ _ _ _ kept => ⟨kept.1.assign, kept.2.assign kept.1⟩) ⟨exact_empty, blank⟩).2

theorem Exact.pair_of_extends (exact : t'.Exact) (extends_ : t.Extends t')
    (here : t.associations[f.index]? = some a) (covers : a.Covers o f.direction)
    (both : o.showsBoth = true) :
    t'.associations[f.index]? = some a ∧
      ∃ g, Keyed.get? o.key t'.pair = some g ∧ t'.lookup? o = some g := by
  obtain ⟨own, complete⟩ := covers.key_eq both
  obtain ⟨b, now, grows⟩ := extends_.associations _ a here
  rw [grows.complete complete] at now
  have listed := exact.both _ a now complete f.direction
  rw [own] at listed
  obtain ⟨g, entry⟩ := Option.isSome_iff_exists.mp listed
  exact ⟨now, g, entry, by rw [lookup?, lookupPair?, if_pos both, entry, Option.some_or]⟩

theorem Exact.lookup?_of_differ (exact : t'.Exact) (distinct : Distinct t'.associations)
    (extends_ : t.Extends t') (here : t.associations[f.index]? = some a)
    (covers : a.Covers o f.direction) (both : o.showsBoth = true)
    (differ : o.destinationTag ≠ o.sourceTag) : t'.lookup? o = some f := by
  obtain ⟨own, complete⟩ := covers.key_eq both
  obtain ⟨now, g, entry, found⟩ := exact.pair_of_extends extends_ here covers both
  obtain ⟨b, there, known, same⟩ := exact.pair _ g entry
  have place : g.index = f.index := by
    refine distinct _ _ b a there now known ?_ g.direction f.direction (same.trans own.symm)
    exact fun equal => differ ((Association.sides_of_key same).2.mp equal)
  rw [place, now] at there
  cases there
  have way : g.direction = f.direction :=
    Association.direction_of_key (same.trans own.symm) fun alike =>
      differ ((Association.sides_of_key same).2.mp alike.2)
  rw [found, Option.some_inj, Flow.mk.injEq]
  exact ⟨place, way⟩

theorem Earliest.lookup?_iff (earliest : t'.Earliest) (exact : t.Exact) (exactToo : t'.Exact)
    (extends_ : t.Extends t') (here : t.associations[f.index]? = some a)
    (covers : a.Covers o f.direction) (both : o.showsBoth = true)
    (equal : o.destinationTag = o.sourceTag) : t'.lookup? o = some f ↔ Undisturbed t t' o f := by
  obtain ⟨own, complete⟩ := covers.key_eq both
  obtain ⟨now, g, entry, found⟩ := exactToo.pair_of_extends extends_ here covers both
  have single : o.probes = [o.destinationTag] := by
    simp only [Observation.showsBoth, Bool.and_eq_true, bne_iff_ne] at both
    simp [Observation.probes, both, equal]
  have listed := exact.listed_of_key here complete own
  have ahead : t.ahead o f.index = (t'.bucket (.of o.sourcePort o.destinationPort
      o.destinationTag)).takeWhile (· != f.index) := by
    rw [ahead_single single]
    exact (takeWhile_of_longer listed (extends_.buckets _)).symm
  rw [found]
  constructor
  · intro same
    cases same
    refine ⟨Or.inr ?_, ?_⟩
    · intro j member b there known d covered
      rw [ahead] at member
      exact earliest.first _ _ entry equal j member b there known d (covered.key_eq both).1
    · intro ports b there _
      rw [if_pos both]
      exact earliest.reverse _ _ entry equal ports
  · intro undisturbed
    have settled := undisturbed.settled.resolve_left fun differ => differ.2 equal
    obtain ⟨b, there, known, same⟩ := exactToo.pair _ g entry
    -- The first association with the tag twice is listed neither behind our own nor ahead of it.
    have place : g.index = f.index := by
      by_contra different
      rcases mem_takeWhile_or (exactToo.listed_of_key there known same)
          (exactToo.listed_of_key now complete own) different with before | behind
      · exact settled _ (ahead ▸ before) b there known _ (Association.covers_of_key same)
      · exact earliest.first _ _ entry equal _ behind a now complete _ own
    rw [place, now] at there
    cases there
    have way : g.direction = f.direction := by
      by_cases ports : o.sourcePort = o.destinationPort
      · rw [undisturbed.sides ports a now ((Association.sides_of_key own).2.mpr equal), if_pos both]
        exact earliest.reverse _ _ entry equal ports
      · exact Association.direction_of_key (same.trans own.symm) fun alike =>
          ports ((Association.sides_of_key own).1.mp alike.1)
    rw [Option.some_inj, Flow.mk.injEq]
    exact ⟨place, way⟩

theorem Reachable.lookup?_iff (reachable : t.Reachable) (later : t'.Reachable)
    (shows : o.destinationTag ≠ 0 ∨ o.sourceTag ≠ 0)
    (extends_ : (t.assign frame o).1.Extends t') :
    t'.lookup? o = some (t.assign frame o).2 ↔
      Undisturbed (t.assign frame o).1 t' o (t.assign frame o).2 := by
  have exact := reachable.exact
  obtain ⟨a, here, covers⟩ := exact.covers_assign frame o
  by_cases two : o.showsBoth = true ∧ o.destinationTag ≠ o.sourceTag
  · obtain ⟨both, differ⟩ := two
    have found := later.exact.lookup?_of_differ later.distinct extends_ here covers both differ
    refine iff_of_true found ⟨Or.inl ⟨both, differ⟩, ?_⟩
    intro ports b there equal
    rw [(later.exact.pair_of_extends extends_ here covers both).1] at there
    cases there
    exact absurd ((Association.sides_of_key (covers.key_eq both).1).2.mp equal) differ
  · by_cases both : o.showsBoth = true
    · have equal : o.destinationTag = o.sourceTag := by
        by_contra differ
        exact two ⟨both, differ⟩
      exact later.earliest.lookup?_iff exact.assign later.exact extends_ here covers both equal
    · obtain ⟨tag, known, single⟩ := probes_single shows two
      have absent : ∀ t : AssociationTable, t.lookupPair? o = none := fun t => if_neg both
      rw [lookup?_single single, absent, Option.none_or]
      exact (exact.firstAnswer frame single (absent t)).later_iff exact.assign single known shows
        (Bool.eq_false_iff.mpr both) extends_

/-- A packet that shows a tag is resolved to the same flow again exactly if nothing in between has
given it to another one. -/
theorem answered_alike_iff (reachable : t.Reachable) (o : Observation)
    (shows : o.destinationTag ≠ 0 ∨ o.sourceTag ≠ 0) (new : Keyed.get? frame t.frames = none)
    (answered : (t.resolve frame false o).2 = some f) (later : List Inquiry) (again : FrameNumber)
    (unused : Keyed.get? again ((t.resolve frame false o).1.resolveAll later).1.frames = none) :
    (((t.resolve frame false o).1.resolveAll later).1.resolve again false o).2 = some f ↔
      Undisturbed (t.resolve frame false o).1 ((t.resolve frame false o).1.resolveAll later).1
        o f := by
  have after := (reachable.resolve frame false o).resolveAll later
  have extends_ := extends_resolveAll (t.resolve frame false o).1 later
  rw [resolve_new unused]
  rw [resolve_new new] at answered after extends_ ⊢
  cases answered
  rw [← reachable.lookup?_iff after shows extends_, Option.some_inj]
  cases found : ((t.assign frame o).1.resolveAll later).1.lookup? o with
  | some g =>
    obtain ⟨b, there, -⟩ := after.exact.lookup?_sound found
    rw [(assign_known again found there).1, Option.some_inj]
  | none =>
    obtain ⟨a, here, -⟩ := reachable.exact.covers_assign frame o
    obtain ⟨b, now, -⟩ := extends_.associations _ a here
    rw [(assign_new again found).1]
    simp only [reduceCtorEq, iff_false]
    intro same
    rw [← same] at now
    simp at now

/-- Two associations learn their second tags: that of the packet, and the one ahead of it, which has
the tag of the packet for its other end. -/
def laterRun : List Inquiry :=
  [.between 3 (1, 1000) (2, 2000) 7 8, .between 4 (3, 1000) (4, 2000) 9 7,
    .between 5 (5, 1000) (6, 2000) 7 0, .between 6 (3, 3000) (4, 2000) 7 9]

theorem answered_alike_behind_another :
    let t := (empty.resolveAll [.between 1 (3, 1000) (4, 2000) 0 7]).1
    let o := (Inquiry.between 2 (1, 1000) (2, 2000) 7 0).observation
    let after := (t.resolve 2 false o).1
    let later := (after.resolveAll laterRun).1
    (later.resolve 7 false o).2 = some ⟨1, .forward⟩ ∧ Undisturbed after later o ⟨1, .forward⟩ := by
  intro t o after later
  have reachable : t.Reachable := ⟨_, rfl⟩
  have alike : (later.resolve 7 false o).2 = some ⟨1, .forward⟩ := by decide
  exact ⟨alike, (answered_alike_iff reachable o (by decide) (by decide) (by decide) laterRun 7
    (by decide)).mp alike⟩

/-- An association that was listed first learns its second tag and takes the packets of another. -/
theorem answers_change :
    ¬ ∀ (t : AssociationTable) (o : Observation) (frame : FrameNumber) (f : Flow)
      (later : List Inquiry) (again : FrameNumber), t.Reachable →
        o.destinationTag ≠ 0 ∨ o.sourceTag ≠ 0 → Keyed.get? frame t.frames = none →
          (t.resolve frame false o).2 = some f →
            Keyed.get? again ((t.resolve frame false o).1.resolveAll later).1.frames = none →
              (((t.resolve frame false o).1.resolveAll later).1.resolve again false o).2 =
                some f := by
  intro stable
  have same := stable (empty.resolveAll [.between 1 (3, 1000) (4, 2000) 7 0]).1
    (Inquiry.between 2 (1, 1000) (2, 2000) 7 0).observation 2 ⟨1, .forward⟩
    [.between 3 (3, 1000) (4, 2000) 7 8] 4 ⟨_, rfl⟩ (by decide) (by decide) (by decide) (by decide)
  revert same
  decide

/-- On one port, an association that turns out to have one tag for both ends is read forward. -/
example : (empty.resolveAll [.between 1 (1, 1000) (2, 1000) 7 0,
    .between 2 (2, 1000) (1, 1000) 7 0, .between 3 (2, 1000) (1, 1000) 7 0]).2 =
      [some ⟨0, .forward⟩, some ⟨0, .reverse⟩, some ⟨0, .forward⟩] := by decide

end AssociationTable

end SctpTrace
