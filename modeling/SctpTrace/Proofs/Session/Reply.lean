import SctpTrace.Proofs.Association.Reply
import SctpTrace.Proofs.Isolation.Run
import SctpTrace.Proofs.Session.Resolved
import SctpTrace.Proofs.Transmission.Peers

/-!
Which flow the SACKs of a packet acknowledge. It is the opposite of the packet's own flow, if that
was seen (`Peered.acknowledged_passesOf`). For a flow that was captured without its handshake, they
reach it exactly if both ends have the same tag (`answer_meets_packet`).
-/
namespace SctpTrace.Session

open Wire Transmission

/-- The halves of opposite flows are linked, and every flow is that of an association. -/
structure Peered (s : Session) : Prop where
  sound : s.tables.tracker.Sound
  linked : s.tables.tracker.Linked
  numbered : ∀ f ∈ s.tables.tracker.flows, f.index < s.associations.associations.length

def ChunkPass.acknowledged? (x : ChunkPass) : Option Flow :=
  x.ctx.sender.bind x.before.tracker.acknowledged?

variable {s : Session} {ctx : Context} {flow : Option Flow} {tables : Tables} {x : ChunkPass}
  {d : Datagram} {p : Packet} {t t' : Tracker} {config : Config} {f g : Flow}

theorem Context.Tracks.linked (tracks : ctx.Tracks flow t t') (linked : t.Linked) :
    t'.Linked ∧ t'.flows = t.flows := by
  cases tracks with
  | same => exact ⟨linked, rfl⟩
  | sender found _ keeps =>
    exact ⟨linked.setHalf found keeps, Tracker.flows_setHalf found keeps.flow⟩
  | peer found _ keeps => exact ⟨linked.setHalf found keeps, Tracker.flows_setHalf found keeps.flow⟩

theorem linked_passes (chunks : List RawChunk)
    (first : ∀ raw, ChunkPass.Taken config ⟨ctx, flow, tables, raw⟩)
    (linked : tables.tracker.Linked) :
    (∀ x ∈ ctx.passes flow tables chunks,
        x.before.tracker.Linked ∧ x.before.tracker.flows = tables.tracker.flows) ∧
      (ctx.takeAll tables chunks).1.tracker.Linked ∧
      (ctx.takeAll tables chunks).1.tracker.flows = tables.tracker.flows := by
  have kept := takeAll_induction
    (P := fun l after => (∀ x ∈ l, x.before.tracker.Linked ∧
        x.before.tracker.flows = tables.tracker.flows) ∧
      after.tracker.Linked ∧ after.tracker.flows = tables.tracker.flows) [] ?_ chunks first ?_
  · rwa [List.nil_append] at kept
  · rintro l x taken ⟨before, linked, same⟩
    obtain ⟨after, sameToo⟩ := (tracks_takeRaw taken.sound taken.seated x.raw).linked linked
    refine ⟨?_, after, sameToo.trans same⟩
    intro y there
    rcases List.mem_append.mp there with old | last
    · exact before y old
    · rw [List.mem_singleton.mp last]
      exact ⟨linked, same⟩
  · refine ⟨?_, linked, rfl⟩
    intro x absent
    cases absent

theorem linked_opened (sound : s.tables.tracker.Sound) (linked : s.tables.tracker.Linked)
    (tracked : s.config.tsn.enabled = true) (own : (s.assign d p).2 = some f) :
    (s.opened d p).tracker.Linked ∧
      ∀ g, g ∈ (s.opened d p).tracker.flows ↔ g ∈ s.tables.tracker.flows ∨ g = f := by
  have added : (s.opened d p).tracker = (s.tables.tracker.ensure f).1 := by
    simp [opened, sender, own, tracked]
  rw [added]
  exact ⟨linked.ensure sound, fun _ => Tracker.mem_flows_ensure⟩

theorem Peered.visit (peered : s.Peered) (indexed : s.Indexed)
    (tracked : s.config.tsn.enabled = true) (d : Datagram) :
    (s.visit d).1.Peered ∧
      ∀ g ∈ s.tables.tracker.flows, g ∈ (s.visit d).1.tables.tracker.flows := by
  have sound := (sound_visit peered.sound d).1
  have visited := visit_cases s d
  generalize s.visit d = outcome at visited sound ⊢
  cases visited with
  | repeated entry known => exact ⟨⟨peered.sound, peered.linked, peered.numbered⟩, fun _ => id⟩
  | refused e new undecoded => exact ⟨peered, fun _ => id⟩
  | taken p new decoded =>
    have assigned := indexed.assign_eq new p
    obtain ⟨linked, flows⟩ := linked_opened peered.sound peered.linked tracked
      (congrArg Prod.snd assigned)
    obtain ⟨-, after, same⟩ := linked_passes p.chunks (taken_first peered.sound d p) linked
    have flowsAfter : (s.take d p).1.tables.tracker.flows = (s.opened d p).tracker.flows := same
    refine ⟨⟨sound, after, ?_⟩, ?_⟩
    · intro g there
      rw [flowsAfter, flows] at there
      rw [(take_eq d p).2.1]
      rcases there with old | rfl
      · exact Nat.lt_of_lt_of_le (peered.numbered g old)
          (Isolation.SessionSim.length_le_assign s d p)
      · obtain ⟨a, here, -⟩ := indexed.reachable.exact.covers_assign d.frame (observation d p)
        rw [assigned]
        exact (List.getElem?_eq_some_iff.mp here).1
    · intro g there
      rw [flowsAfter, flows]
      exact Or.inl there

theorem Fresh.peered (fresh : s.Fresh) : s.Peered := by
  obtain ⟨-, tables, -⟩ := fresh.blank
  refine ⟨?_, ?_, ?_⟩
  · rw [tables]
    exact Tracker.sound_empty
  · rw [tables]
    exact Tracker.linked_empty
  · rw [tables]
    intro f absent
    cases absent

theorem config_visit (s : Session) (d : Datagram) : (s.visit d).1.config = s.config := by
  have visited := visit_cases s d
  generalize s.visit d = outcome at visited ⊢
  cases visited <;> rfl

theorem config_visitAll (s : Session) (run : List Datagram) :
    (s.visitAll run).1.config = s.config := by
  induction run generalizing s with
  | nil => rfl
  | cons d rest ih => exact (ih _).trans (config_visit s d)

theorem Peered.visitAll (peered : s.Peered) (indexed : s.Indexed)
    (tracked : s.config.tsn.enabled = true) (run : List Datagram) :
    (s.visitAll run).1.Peered ∧
      ∀ g ∈ s.tables.tracker.flows, g ∈ (s.visitAll run).1.tables.tracker.flows := by
  induction run generalizing s with
  | nil => exact ⟨peered, fun _ => id⟩
  | cons d rest ih =>
    obtain ⟨next, kept⟩ := peered.visit indexed tracked d
    obtain ⟨last, keptToo⟩ := ih next (indexed.visit d).1 (by rwa [config_visit])
    exact ⟨last, fun g there => keptToo g (kept g there)⟩

/-- The SACKs of a packet acknowledge the opposite flow exactly if that was seen before. -/
theorem Peered.acknowledged_passesOf (peered : s.Peered) (tracked : s.config.tsn.enabled = true)
    (new : Keyed.get? d.frame s.frames = none) (decoded : Packet.decode d.data = .ok p)
    (own : (s.assign d p).2 = some f) : ∀ x ∈ s.passesOf d,
      x.acknowledged? = if f.opposite ∈ s.tables.tracker.flows then some f.opposite else none := by
  intro x there
  have taken : x.Taken s.config :=
    passes_taken peered.sound [d] x (List.mem_append_left _ there)
  obtain ⟨linked, flows⟩ := linked_opened peered.sound peered.linked tracked own
  rw [passesOf_taken new decoded] at there
  have before := (linked_passes p.chunks (taken_first peered.sound d p) linked).1 x there
  have isFlow : x.flow = some f := (mem_passes there).2.trans own
  obtain ⟨id, seat⟩ := Option.isSome_iff_exists.mp (taken.tracked tracked (by rw [isFlow]; rfl))
  obtain ⟨h, here, same⟩ := taken.seated id seat
  rw [isFlow] at same
  cases same
  have notOwn : h.flow.opposite ≠ h.flow := fun same =>
    Direction.opposite_ne _ (congrArg Flow.direction same)
  rw [ChunkPass.acknowledged?, seat, Option.bind_some,
    before.1.acknowledged?_eq taken.sound here, before.2]
  simp only [flows, notOwn, or_false]

theorem mem_flows_take (peered : s.Peered) (tracked : s.config.tsn.enabled = true)
    (own : (s.assign d p).2 = some f) : f ∈ (s.take d p).1.tables.tracker.flows := by
  obtain ⟨linked, flows⟩ := linked_opened peered.sound peered.linked tracked own
  have same := (linked_passes p.chunks (taken_first peered.sound d p) linked).2.2
  rw [tables_take, same, flows]
  exact Or.inr rfl

theorem flow_visit (new : Keyed.get? d.frame s.frames = none)
    (decoded : Packet.decode d.data = .ok p) :
    (s.visit d).1 = (s.take d p).1 ∧ (s.visit d).2.map (·.flow) = .ok (s.assign d p).2 := by
  rw [visit, new, decoded]
  exact ⟨rfl, rfl⟩

theorem flow_of_inquiry? {o : Observation} (indexed : s.Indexed)
    (question : inquiry? d = some ⟨d.frame, false, o⟩) : ∃ p, Packet.decode d.data = .ok p ∧
      (s.assign d p).2 = (s.associations.resolve d.frame false o).2 := by
  unfold inquiry? at question
  cases decoded : Packet.decode d.data with
  | error e =>
    rw [decoded] at question
    cases question
  | ok p =>
    rw [decoded] at question
    cases question
    exact ⟨p, rfl, by rw [Session.assign, if_pos indexed.indexing]⟩

def Reachable (s : Session) : Prop :=
  ∃ first : Session, first.Fresh ∧ ∃ history, s = (first.visitAll history).1

theorem Reachable.invariants (reachable : s.Reachable) (indexing : s.config.indexing = true)
    (tracked : s.config.tsn.enabled = true) : s.Indexed ∧ s.Peered := by
  obtain ⟨first, fresh, history, rfl⟩ := reachable
  rw [config_visitAll] at indexing tracked
  have indexed := fresh.indexed indexing
  exact ⟨indexed.visitAll history, (fresh.peered.visitAll indexed tracked history).1⟩

theorem Reachable.visitAll (reachable : s.Reachable) (run : List Datagram) :
    (s.visitAll run).1.Reachable := by
  obtain ⟨first, fresh, history, rfl⟩ := reachable
  exact ⟨first, fresh, history ++ run, by rw [visitAll_append]⟩

/-- In a capture, the packet comes on ports where nothing is known, then others on other ports, then
the answer. -/
structure Captured (e : Exchange) (s : Session) (d : Datagram) (between : List Datagram)
    (d' : Datagram) : Prop where
  reachable : s.Reachable
  indexing : s.config.indexing = true
  tracked : s.config.tsn.enabled = true
  vacant : s.associations.Vacant e.ports
  new : Keyed.get? d.frame s.frames = none
  packet : inquiry? d = some ⟨d.frame, false, e.packet⟩
  elsewhere : ∀ x ∈ between.filterMap inquiry?, x.observation.ports ≠ e.ports
  unused : Keyed.get? d'.frame ((s.visit d).1.visitAll between).1.frames = none
  answer : inquiry? d' = some ⟨d'.frame, false, e.answer⟩

theorem Captured.seen {e : Exchange} {between : List Datagram} {d' : Datagram}
    (captured : Captured e s d between d') :
    e.Seen s.associations d.frame (between.filterMap inquiry?) d'.frame ∧
      ((s.visit d).1.visitAll between).1.associations =
        ((s.associations.resolve d.frame false e.packet).1.resolveAll
          (between.filterMap inquiry?)).1 := by
  obtain ⟨indexed, -⟩ := captured.reachable.invariants captured.indexing captured.tracked
  obtain ⟨next, first⟩ := indexed.visit d
  have later := next.associations_visitAll between
  rw [captured.packet] at first
  rw [first] at later
  have unused := ((next.visitAll between).frames d'.frame).mpr captured.unused
  rw [later] at unused
  exact ⟨⟨indexed.reachable, captured.vacant, (indexed.frames _).mpr captured.new,
    captured.elsewhere, unused⟩, later⟩

theorem Captured.later {e : Exchange} {between : List Datagram} {d' : Datagram}
    (captured : Captured e s d between d') :
    let later := ((s.visit d).1.visitAll between).1
    later.Indexed ∧ later.Peered ∧ later.config.tsn.enabled = true := by
  intro later
  have config : later.config = s.config := (config_visitAll _ between).trans (config_visit s d)
  have tracked : later.config.tsn.enabled = true := config ▸ captured.tracked
  obtain ⟨indexed, peered⟩ := (captured.reachable.visitAll (d :: between)).invariants
    (config ▸ captured.indexing) tracked
  exact ⟨indexed, peered, tracked⟩

theorem Captured.opened {e : Exchange} {between : List Datagram} {d' : Datagram}
    (captured : Captured e s d between d') :
    let opened : Flow := ⟨s.associations.associations.length, .forward⟩
    (s.visit d).2.map (·.flow) = .ok (some opened) ∧
      opened ∈ ((s.visit d).1.visitAll between).1.tables.tracker.flows := by
  intro opened
  obtain ⟨indexed, peered⟩ := captured.reachable.invariants captured.indexing captured.tracked
  obtain ⟨p, decoded, own⟩ := flow_of_inquiry? indexed captured.packet
  rw [captured.seen.1.answered.2.1] at own
  obtain ⟨visited, flow⟩ := flow_visit captured.new decoded
  refine ⟨by rw [flow, own], ?_⟩
  have tracked : (s.visit d).1.config.tsn.enabled = true := by
    rw [config_visit]
    exact captured.tracked
  obtain ⟨next, -⟩ := peered.visit indexed captured.tracked d
  apply (next.visitAll (indexed.visit d).1 tracked between).2
  rw [visited]
  exact mem_flows_take peered captured.tracked own

/-- The SACKs of the answer reach the flow of the packet if the answer is its opposite. -/
theorem Captured.answered {e : Exchange} {between : List Datagram} {d' : Datagram}
    (captured : Captured e s d between d') :
    let n := s.associations.associations.length
    let later := ((s.visit d).1.visitAll between).1
    (later.visit d').2.map (·.flow) =
        .ok (some (e.answerFlow n later.associations.associations.length)) ∧
      ∀ x ∈ later.passesOf d',
        x.acknowledged? = if e.tag = e.answerTag then some ⟨n, .forward⟩ else none := by
  intro n later
  obtain ⟨indexed, peered, tracked⟩ := captured.later
  obtain ⟨seen, table⟩ := captured.seen
  obtain ⟨p, decoded, own⟩ := flow_of_inquiry? indexed captured.answer
  rw [table, seen.answered.2.2, ← table] at own
  refine ⟨by rw [(flow_visit captured.unused decoded).2, own], ?_⟩
  intro x there
  rw [peered.acknowledged_passesOf tracked captured.unused decoded own x there]
  by_cases same : e.tag = e.answerTag
  · have opposite : (e.answerFlow n later.associations.associations.length).opposite =
        ⟨n, .forward⟩ := by
      rw [Exchange.answerFlow, if_pos same]
      rfl
    rw [opposite, if_pos captured.opened.2, if_pos same]
  · rw [if_neg same, if_neg]
    intro seenBefore
    rw [Exchange.answerFlow, if_neg same] at seenBefore
    exact Nat.lt_irrefl _ (peered.numbered _ seenBefore)

/-- A packet that shows the tag of its destination only, on ports where nothing is known, and the
answer to it: they are resolved to one association, in opposite directions, and the SACKs of the
answer reach the flow of the packet, exactly if they show the same tag. -/
theorem answer_meets_packet (e : Exchange) :
    (∀ t frame between again, e.Seen t frame between again →
      let n := t.associations.length
      let later := ((t.resolve frame false e.packet).1.resolveAll between).1
      n < later.associations.length ∧
        (t.resolve frame false e.packet).2 = some ⟨n, .forward⟩ ∧
        (later.resolve again false e.answer).2 =
          some (e.answerFlow n later.associations.length)) ∧
    ∀ s d between d', Captured e s d between d' →
      let n := s.associations.associations.length
      let later := ((s.visit d).1.visitAll between).1
      (s.visit d).2.map (·.flow) = .ok (some ⟨n, .forward⟩) ∧
        (later.visit d').2.map (·.flow) =
          .ok (some (e.answerFlow n later.associations.associations.length)) ∧
        ∀ x ∈ later.passesOf d',
          x.acknowledged? = if e.tag = e.answerTag then some ⟨n, .forward⟩ else none := by
  refine ⟨fun t frame between again seen => seen.answered, ?_⟩
  intro s d between d' captured n later
  exact ⟨captured.opened.1, captured.answered⟩

def sameTag : Exchange :=
  ⟨1000, 2000, .ofOctets 10 0 0 1, .ofOctets 10 0 0 2, 7, 7, by decide, by decide, by decide⟩

def otherTag : Exchange :=
  { sameTag with answerTag := 8, answerTagged := by decide, apart := by decide }

theorem answer_meets_packet_with_its_tag :
    let start := Session.start {}
    let data := between 1 1000 2000 7 (DataChunk.write ⟨10, 1, 5, 0, [65], false, true, true⟩)
    let other := between 2 3000 2000 7 (DataChunk.write ⟨10, 1, 5, 0, [66], false, true, true⟩)
    let sack := between 3 2000 1000 7 (SackChunk.write ⟨10, 1500, [], [], []⟩ false)
    let later := ((start.visit data).1.visitAll [other]).1
    sameTag.Seen start.associations 1 ([other].filterMap inquiry?) 3 ∧
      Captured sameTag start data [other] sack ∧ (later.passesOf sack).length = 1 ∧
      ∀ x ∈ later.passesOf sack, x.acknowledged? = some ⟨0, .forward⟩ := by
  intro start data other sack later
  have captured : Captured sameTag start data [other] sack :=
    ⟨⟨start, Or.inl ⟨{}, rfl⟩, [], rfl⟩, rfl, rfl, by decide, rfl, by decide +kernel,
      by decide +kernel, by decide +kernel, by decide +kernel⟩
  obtain ⟨-, capture⟩ := answer_meets_packet sameTag
  exact ⟨captured.seen.1, captured, by decide +kernel, (capture _ _ _ _ captured).2.2⟩

/-- An answer with another tag opens an association of its own. -/
theorem answer_misses_packet :
    ¬ ∀ (e : Exchange) (t : AssociationTable) (frame : FrameNumber) (between : List Inquiry)
      (again : FrameNumber), e.Seen t frame between again →
        (((t.resolve frame false e.packet).1.resolveAll between).1.resolve again false
          e.answer).2 = (t.resolve frame false e.packet).2.map Flow.opposite := by
  intro meets
  have seen : otherTag.Seen .empty 1 [] 2 := by
    refine ⟨⟨[], rfl⟩, ?_, rfl, ?_, by decide⟩
    · intro a absent
      cases absent
    · intro x absent
      cases absent
  have met := meets otherTag .empty 1 [] 2 seen
  revert met
  decide

end SctpTrace.Session
