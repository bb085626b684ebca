import SctpTrace.Proofs.Reassembly.Calls
import SctpTrace.Proofs.Session.Carried
import SctpTrace.Proofs.Session.Halves
import SctpTrace.Proofs.Session.Reply
import SctpTrace.Proofs.Transmission.Retained

/-!
What a session has learned, and never changes or loses (`Retains`). The next datagram adds to one
association at most, and only tags that were not known and that its packet shows (`LearnsFrom`).
-/
namespace SctpTrace

/-- A tag later on: as before, or one that was not known and is shown now. -/
def Tag.Learns (before after shown : UInt32) : Prop :=
  after = before ∨ before = 0 ∧ after = shown ∧ shown ≠ 0

structure Association.Learns (a : Association) (o : Observation) (direction : Direction)
    (b : Association) : Prop where
  grows : a.Grows b
  sourcePort : (a.key direction).sourcePort = o.sourcePort
  destinationPort : (a.key direction).destinationPort = o.destinationPort
  sourceTag : Tag.Learns (a.key direction).tags.source (b.key direction).tags.source o.sourceTag
  destinationTag : Tag.Learns (a.key direction).tags.destination
    (b.key direction).tags.destination o.destinationTag

namespace AssociationTable

variable {t : AssociationTable} {o : Observation} {frame : FrameNumber} {i : Nat}
  {a : Association}

theorem learns_learned {direction : Direction}
    (sourcePort : (a.key direction).sourcePort = o.sourcePort)
    (destinationPort : (a.key direction).destinationPort = o.destinationPort) :
    a.Learns o direction (learned a o direction) := by
  have tag : ∀ known shown : UInt32,
      Tag.Learns known (if known = 0 then shown else known) shown := by
    intro known shown
    by_cases unknown : known = 0
    · by_cases nothing : shown = 0
      · exact Or.inl (by rw [if_pos unknown, nothing, unknown])
      · exact Or.inr ⟨unknown, if_pos unknown, nothing⟩
    · exact Or.inl (if_neg unknown)
  refine ⟨Association.grows_learned, sourcePort, destinationPort, ?_, ?_⟩
  · rw [Association.key_learned]
    exact tag _ _
  · rw [Association.key_learned]
    exact tag _ _

theorem Exact.learns_assign (exact : t.Exact) (frame : FrameNumber) (o : Observation)
    (there : t.associations[i]? = some a) :
    ∃ b, (t.assign frame o).1.associations[i]? = some b ∧
      (b = a ∨ i = (t.assign frame o).2.index ∧ a.Learns o (t.assign frame o).2.direction b) := by
  by_cases other : i = (t.assign frame o).2.index
  · cases found : t.lookup? o with
    | none =>
      rw [(assign_new frame found).1] at other
      exact absurd other (Nat.ne_of_lt (List.getElem?_eq_some_iff.mp there).1)
    | some f =>
      obtain ⟨a', here, how⟩ := exact.lookup?_cases found
      obtain ⟨flow, now⟩ := assign_known frame found here
      rw [flow] at other
      subst other
      rw [there] at here
      cases here
      refine ⟨_, now, Or.inr ⟨by rw [flow], ?_⟩⟩
      rw [flow]
      rcases how with ⟨-, -, same⟩ | ⟨-, matching⟩
      · exact learns_learned (by rw [same]; rfl) (by rw [same]; rfl)
      · obtain ⟨source, destination, -⟩ :=
          Association.matchesIn_iff.mp (a.matchesIn_of_direction? matching)
        exact learns_learned source.symm destination.symm
  · exact ⟨a, (associations_assign other).trans there, Or.inl rfl⟩

end AssociationTable

namespace Session

open Wire Transmission Reassembly

/-- A later state of a session. Associations and halves keep their places. -/
structure Retains (s after : Session) : Prop where
  associations : ∀ (i : Nat) (a : Association), s.associations.associations[i]? = some a →
    ∃ b, after.associations.associations[i]? = some b ∧ a.Grows b
  tracker : s.tables.tracker.Retains after.tables.tracker
  fragments : ∀ key, (s.tables.store.held key).Retains (after.tables.store.held key)
  analyses : ∀ frame entry, Keyed.get? frame s.frames = some entry →
    ∃ later, Keyed.get? frame after.frames = some later ∧ later.facts = entry.facts

def LearnsFrom (s : Session) (d : Datagram) : Prop :=
  ∀ i a b, s.associations.associations[i]? = some a →
    (s.visit d).1.associations.associations[i]? = some b →
    b = a ∨ ∃ p direction, Packet.decode d.data = .ok p ∧
      (s.visit d).2.map (·.flow) = .ok (some ⟨i, direction⟩) ∧
      a.Learns (observation d p) direction b

variable {s s' s'' : Session} {d : Datagram} {x : ChunkPass} {config : Config}

theorem Retains.refl (s : Session) : s.Retains s :=
  ⟨fun _ a there => ⟨a, there, .refl a⟩, .refl _, fun _ => .refl _,
    fun _ entry known => ⟨entry, known, rfl⟩⟩

theorem Retains.trans (first : s.Retains s') (second : s'.Retains s'') : s.Retains s'' := by
  refine ⟨?_, first.tracker.trans second.tracker,
    fun key => (first.fragments key).trans (second.fragments key), ?_⟩
  · intro i a there
    obtain ⟨b, now, grows⟩ := first.associations i a there
    obtain ⟨c, later, growsToo⟩ := second.associations i b now
    exact ⟨c, later, grows.trans growsToo⟩
  · intro frame entry known
    obtain ⟨now, here, same⟩ := first.analyses frame entry known
    obtain ⟨later, last, sameToo⟩ := second.analyses frame now here
    exact ⟨later, last, sameToo.trans same⟩

theorem ChunkPass.Taken.retains (taken : x.Taken config) :
    x.before.tracker.Retains x.after.tracker ∧
      ∀ key, (x.before.store.held key).Retains (x.after.store.held key) := by
  constructor
  · rcases taken.step_cases with same | ⟨id, h, e, found, after⟩
    · rw [same]
      exact .refl _
    · rw [after]
      exact Tracker.retains_setHalf found (Half.retains_step e)
  · intro key
    rcases x.fragment_cases with ⟨same, -⟩ | ⟨own, a, brings⟩
    · rw [same]
      exact .refl _
    · rw [brings.store, Store.held_receive]
      split
      · rename_i same
        rw [← same]
        exact Fragments.retains_receive _ a
      · exact .refl _

theorem retains_tables (sound : s.tables.tracker.Sound) (d : Datagram) :
    s.tables.tracker.Retains (s.visit d).1.tables.tracker ∧
      ∀ key, (s.tables.store.held key).Retains ((s.visit d).1.tables.store.held key) := by
  have kept := visit_induction (s := s) (P := fun _ tables => tables.tracker.Sound ∧
    s.tables.tracker.Retains tables.tracker ∧
      ∀ key, (s.tables.store.held key).Retains (tables.store.held key)) [] ?_ ?_ sound d ?_
  · exact kept.2
  · rintro l tables f ⟨sound, tracker, fragments⟩
    exact ⟨sound.ensure, tracker.trans sound.retains_ensure, fragments⟩
  · rintro l x taken ⟨-, tracker, fragments⟩
    obtain ⟨trackerToo, fragmentsToo⟩ := taken.retains
    exact ⟨((tracks_takeRaw taken.sound taken.seated x.raw).kept taken.sound taken.seated).1,
      tracker.trans trackerToo, fun key => (fragments key).trans (fragmentsToo key)⟩
  · exact ⟨sound, .refl _, fun _ => .refl _⟩

theorem retains_put {frames : Keyed FrameNumber Remembered} {frame : FrameNumber} {new : Remembered}
    (same : ∀ entry, Keyed.get? frame frames = some entry → new.facts = entry.facts) :
    ∀ other entry, Keyed.get? other frames = some entry →
      ∃ later, Keyed.get? other (Keyed.put frame new frames) = some later ∧
        later.facts = entry.facts := by
  intro other entry known
  rw [Keyed.get?_put]
  split
  · rename_i here
    exact ⟨new, rfl, same entry (here ▸ known)⟩
  · exact ⟨entry, known, rfl⟩

theorem retains_visit (sound : s.tables.tracker.Sound) (d : Datagram) :
    s.Retains (s.visit d).1 := by
  obtain ⟨tracker, fragments⟩ := retains_tables sound d
  have visited := visit_cases s d
  generalize s.visit d = outcome at visited tracker fragments ⊢
  cases visited with
  | repeated entry known =>
    refine ⟨(Retains.refl s).associations, tracker, fragments, retains_put ?_⟩
    intro old there
    rw [known] at there
    cases there
    rfl
  | refused e new undecoded => exact .refl s
  | taken p new decoded =>
    refine ⟨?_, tracker, fragments, ?_⟩
    · rw [(take_eq d p).2.1, assign]
      split
      · unfold AssociationTable.resolve
        split
        · exact (Retains.refl s).associations
        · exact (AssociationTable.extends_assign _ _ _).associations
      · exact (Retains.refl s).associations
    · rw [(take_eq d p).2.2.2]
      refine retains_put fun old there => ?_
      rw [new] at there
      cases there

theorem retains_visitAll (sound : s.tables.tracker.Sound) (run : List Datagram) :
    s.Retains (s.visitAll run).1 := by
  induction run generalizing s with
  | nil => exact .refl s
  | cons d rest ih => exact (retains_visit sound d).trans (ih (sound_visit sound d).1)

theorem learnsFrom_visit (indexed : s.config.indexing = true → s.Indexed) (d : Datagram) :
    s.LearnsFrom d := by
  unfold LearnsFrom
  have visited := visit_cases s d
  generalize s.visit d = outcome at visited ⊢
  intro i a b there now
  cases visited with
  | repeated entry known => exact Or.inl (Option.some.inj (now.symm.trans there))
  | refused e new undecoded => exact Or.inl (Option.some.inj (now.symm.trans there))
  | taken p new decoded =>
    rw [(take_eq d p).2.1] at now
    cases indexing : s.config.indexing with
    | false =>
      rw [assign, indexing] at now
      exact Or.inl (Option.some.inj (now.symm.trans there))
    | true =>
      have known := indexed indexing
      have assigned := known.assign_eq new p
      obtain ⟨c, here, learns⟩ :=
        known.reachable.exact.learns_assign d.frame (observation d p) there
      rw [assigned, here] at now
      cases now
      rcases learns with same | ⟨place, learns⟩
      · exact Or.inl same
      · refine Or.inr ⟨p, _, decoded, ?_, learns⟩
        rw [place]
        exact congrArg Except.ok (congrArg Prod.snd assigned)

/-- In every state, whatever datagram comes next, and whatever comes after it. -/
theorem nothing_learned_is_lost {session : Session} (fresh : session.Fresh) (run : List Datagram) :
    let s := (session.visitAll run).1
    (∀ d, s.Retains (s.visit d).1 ∧ s.LearnsFrom d) ∧ ∀ more, s.Retains (s.visitAll more).1 := by
  intro s
  have sound : s.tables.tracker.Sound := sound_visitAll fresh.peered.sound run
  refine ⟨fun d => ⟨retains_visit sound d, learnsFrom_visit ?_ d⟩, retains_visitAll sound⟩
  intro indexing
  rw [config_visitAll] at indexing
  exact (fresh.indexed indexing).visitAll run

theorem answer_adds_its_tag :
    let s := ((start {}).visitAll
      [between 1 2905 2906 0 (InitChunk.write ⟨9, 1500, 1, 1, 10⟩ false)]).1
    let answer := between 2 2906 2905 9 (InitChunk.write ⟨7, 1500, 1, 1, 20⟩ true)
    let tags := fun a : Association => (a.destinationTag, a.sourceTag)
    (start {}).Fresh ∧ s.Retains (s.visit answer).1 ∧ s.LearnsFrom answer ∧
      s.associations.associations.map tags = [(0, 9)] ∧
      (s.visit answer).1.associations.associations.map tags = [(7, 9)] := by
  intro s answer tags
  have fresh : (start {}).Fresh := Or.inl ⟨{}, rfl⟩
  obtain ⟨next, -⟩ := nothing_learned_is_lost fresh
    [between 1 2905 2906 0 (InitChunk.write ⟨9, 1500, 1, 1, 10⟩ false)]
  exact ⟨fresh, (next answer).1, (next answer).2, by decide +kernel, by decide +kernel⟩

end Session

end SctpTrace
