import SctpTrace.Proofs.Session.Followed

/-!
What a packet touches. The halves of a session have different flows of associations that are known,
and the peer of a half is that of the opposite flow and no other (`Paired`). A packet moves the half
of its own flow by its data and INIT chunks, the half of the opposite flow by its SACKs, and no
other (`touches_visit`).
-/
namespace SctpTrace.Session

open Wire Transmission

structure Paired (associations : Nat) (t : Tracker) : Prop where
  distinct : t.flows.Nodup
  numbered : ∀ f ∈ t.flows, f.index < associations
  peers : ∀ i h, t.half? i = some h → ∀ j,
    h.peer = some j ↔ ∃ other, t.half? j = some other ∧ other.flow = h.flow.opposite
  back : ∀ i j h other, t.half? i = some h → t.half? j = some other →
    (h.peer = some j ↔ other.peer = some i)

/-- What a packet of a flow does to the halves, with these events in its chunks. Halves keep their
places. -/
structure Touches (config : Config) (stamp : Stamp) (events : List HalfEvent) (f : Flow)
    (t t' : Tracker) : Prop where
  flows : t'.flows = t.flows ++ if f ∈ t.flows then [] else [f]
  others : ∀ i h, t.half? i = some h → h.flow ≠ f → h.flow ≠ f.opposite → t'.half? i = some h
  own : ∀ i h, t.half? i = some h → h.flow = f → ∃ after, t'.half? i = some after ∧
    after = h.follow config.ackLimits config.tsn.maxRetransmissionsTracked
      (events.filter fun e => !e.isAck) ∧ h.Sends after
  /-- If there was no half of the flow, it is added at the end and linked to its peer. -/
  added : f ∉ t.flows → ∃ after, t'.half? t.halves.length = some after ∧
    after = { Half.new f with peer := t.find? f.opposite }.follow config.ackLimits
      config.tsn.maxRetransmissionsTracked (events.filter fun e => !e.isAck) ∧
    { Half.new f with peer := t.find? f.opposite }.Sends after
  /-- If the half of the flow is added, it becomes the peer. -/
  opposite : ∀ i h, t.half? i = some h → h.flow = f.opposite → ∃ after, t'.half? i = some after ∧
    after = { h with peer := if f ∈ t.flows then h.peer else some t.halves.length }.follow
      config.ackLimits config.tsn.maxRetransmissionsTracked (events.filter (·.isAck)) ∧
    { h with peer := if f ∈ t.flows then h.peer else some t.halves.length }.Hears stamp after

variable {s : Session} {ctx : Context} {tables : Tables} {d : Datagram} {p : Packet}
  {t t' : Tracker} {f g : Flow} {config : Config} {events : List HalfEvent} {stamp : Stamp}

theorem paired_of_linked {n : Nat} (sound : t.Sound) (linked : t.Linked)
    (numbered : ∀ f ∈ t.flows, f.index < n) : Paired n t := by
  have peers : ∀ i h, t.half? i = some h → ∀ j,
      h.peer = some j ↔ ∃ other, t.half? j = some other ∧ other.flow = h.flow.opposite :=
    fun i h here j => ⟨sound.peers i j h here, fun ⟨other, there, opposite⟩ =>
      linked i j h other here there opposite⟩
  have onward : ∀ i j h other, t.half? i = some h → t.half? j = some other →
      h.peer = some j → other.peer = some i := by
    intro i j h other here there peer
    obtain ⟨found, place, opposite⟩ := (peers i h here j).mp peer
    rw [there] at place
    cases place
    refine (peers j other there i).mpr ⟨h, here, ?_⟩
    rw [opposite, Flow.opposite_opposite]
  exact ⟨sound.distinct, numbered, peers,
    fun i j h other here there => ⟨onward i j h other here there, onward j i other h there here⟩⟩

theorem paired_visitAll (fresh : s.Fresh) (run : List Datagram) :
    Paired (s.visitAll run).1.associations.associations.length
      (s.visitAll run).1.tables.tracker := by
  cases tracked : s.config.tsn.enabled with
  | false =>
    have empty : (s.visitAll run).1.tables.tracker = .empty :=
      congrArg Tracker.mk (fresh.untracked_visitAll tracked run)
    rw [empty]
    refine paired_of_linked Tracker.sound_empty Tracker.linked_empty ?_
    intro f absent
    cases absent
  | true =>
    have indexing : s.config.indexing = true := by rw [Config.indexing, tracked, Bool.or_true]
    obtain ⟨sound, linked, numbered⟩ :=
      (fresh.peered.visitAll (fresh.indexed indexing) tracked run).1
    exact paired_of_linked sound linked numbered

theorem eventsFor_passes (raws : List RawChunk) :
    eventsFor (ctx.passes (some f) tables raws) g =
      ((decodable raws).filterMap (HalfEvent.ofChunk? ctx.stamp)).filter
        fun e => e.reaches (some f) g := by
  induction raws generalizing tables with
  | nil => rfl
  | cons raw rest ih =>
    have here : ChunkPass.eventFor? ⟨ctx, some f, tables, raw⟩ g =
        (raw.decode.toOption.bind (HalfEvent.ofChunk? ctx.stamp)).filter
          fun e => e.reaches (some f) g := rfl
    unfold eventsFor decodable at ih ⊢
    rw [Context.passes, List.filterMap_cons, here, ih, List.filterMap_cons]
    cases raw.decode.toOption with
    | none => rfl
    | some c =>
      simp only [Option.bind_some, List.filterMap_cons]
      cases HalfEvent.ofChunk? ctx.stamp c with
      | none => rfl
      | some e =>
        simp only [Option.filter_some, List.filter_cons]
        cases e.reaches (some f) g <;> rfl

/-- The half of the packet's flow is added if there was none, and each half moves by what reaches
it. -/
theorem touches_of_moves (sound : t.Sound)
    (acks : ∀ e ∈ events, e.isAck = true → ∃ chunk nonRenegable, e = .sack chunk nonRenegable stamp)
    (moves : t'.halves = (t.ensure f).1.halves.map fun h =>
      h.follow config.ackLimits config.tsn.maxRetransmissionsTracked
        (events.filter fun e => e.reaches (some f) h.flow)) :
    Touches config stamp events f t t' := by
  have half : ∀ {i h g}, (t.ensure f).1.half? i = some h → h.flow = g → t'.half? i =
      some (h.follow config.ackLimits config.tsn.maxRetransmissionsTracked
        (events.filter fun e => e.reaches (some f) g)) := by
    rintro i h - here rfl
    rw [Tracker.half?, moves, List.getElem?_map]
    exact congrArg _ here
  have own : ∀ {i h}, (t.ensure f).1.half? i = some h → h.flow = f → ∃ after,
      t'.half? i = some after ∧ after = h.follow config.ackLimits
        config.tsn.maxRetransmissionsTracked (events.filter fun e => !e.isAck) ∧ h.Sends after := by
    intro i h here isOwn
    have now := half here isOwn
    simp only [HalfEvent.reaches_own] at now
    refine ⟨_, now, rfl, Half.sends_follow fun e there => ?_⟩
    simpa using (List.mem_filter.mp there).2
  -- In turn: the flows, the halves of others, the own half, a half just added, the opposite one.
  refine ⟨?_, ?_, ?_, ?_, ?_⟩
  · rw [← Tracker.flows_ensure, Tracker.flows, moves, List.map_map]
    exact List.map_congr_left fun h _ => Half.flow_follow
  · intro i h here notOwn notOpposite
    have kept := sound.half?_ensure_of_some (f := f) here
    rw [if_neg fun both => notOpposite both.2] at kept
    rw [half kept rfl]
    simp only [HalfEvent.reaches_other notOwn notOpposite, List.filter_false]
    rfl
  · intro i h here isOwn
    have notOpposite : h.flow ≠ f.opposite := fun same => f.opposite_ne (same.symm.trans isOwn)
    have kept := sound.half?_ensure_of_some (f := f) here
    rw [if_neg fun both => notOpposite both.2] at kept
    exact own kept isOwn
  · intro new
    rcases Tracker.halves_ensure (t := t) (f := f) with ⟨-, seen⟩ | ⟨-, -, added⟩
    · obtain ⟨h, here, isOwn⟩ := seen
      exact absurd (Tracker.mem_flows_iff.mpr ⟨_, h, here, isOwn⟩) new
    · exact own (Tracker.half?_added_last added) rfl
  · intro i h here isOpposite
    have kept := sound.half?_ensure_of_some (f := f) here
    have peer : (if f ∉ t.flows ∧ h.flow = f.opposite then some t.halves.length else h.peer) =
        if f ∈ t.flows then h.peer else some t.halves.length := by
      by_cases seen : f ∈ t.flows <;> simp [seen, isOpposite]
    rw [peer] at kept
    have now := half kept isOpposite
    simp only [HalfEvent.reaches_opposite] at now
    refine ⟨_, now, rfl, Half.hears_follow fun e there => ?_⟩
    obtain ⟨member, ack⟩ := List.mem_filter.mp there
    exact acks e member ack

theorem touches_take (sound : s.tables.tracker.Sound) (linked : s.tables.tracker.Linked)
    (tracked : s.config.tsn.enabled = true) (own : (s.assign d p).2 = some f) :
    Touches s.config d.stamp ((decodable p.chunks).filterMap (HalfEvent.ofChunk? d.stamp)) f
      s.tables.tracker (s.take d p).1.tables.tracker := by
  have opened : (s.opened d p).tracker = (s.tables.tracker.ensure f).1 := by
    simp [Session.opened, sender, own, tracked]
  have linkedToo := (linked_opened sound linked tracked own).1
  refine touches_of_moves sound ?_ ?_
  · intro e there ack
    obtain ⟨c, -, is⟩ := List.mem_filterMap.mp there
    exact HalfEvent.eq_sack_of_isAck is ack
  · have first := taken_first sound d p
    rw [own] at first
    have moved := moves_takeAll tracked p.chunks first linkedToo
    simp only [eventsFor_passes] at moved
    rw [tables_take, moved, opened]
    rfl

/-- In every state the peers of halves are exact, and the next packet touches the halves of its own
association only: its own half by data and INIT, the opposite one by SACKs. Another pass over a
frame touches none. -/
theorem touches_visit {session : Session} (fresh : session.Fresh) (run : List Datagram) :
    let s := (session.visitAll run).1
    Paired s.associations.associations.length s.tables.tracker ∧
      ∀ d, s.config.tsn.enabled = true →
        (∀ p f, Keyed.get? d.frame s.frames = none → Packet.decode d.data = .ok p →
          (s.visit d).2.map (·.flow) = .ok (some f) →
          Touches s.config d.stamp ((decodable p.chunks).filterMap (HalfEvent.ofChunk? d.stamp)) f
            s.tables.tracker (s.visit d).1.tables.tracker) ∧
        (Keyed.get? d.frame s.frames ≠ none → (s.visit d).1.tables = s.tables) := by
  intro s
  refine ⟨paired_visitAll fresh run, fun d tracked => ⟨?_, ?_⟩⟩
  · intro p f new decoded own
    have followed : Followed session.config (session.passes run) s.tables.tracker :=
      followed_visitAll fresh (by rwa [← config_visitAll session run]) run
    obtain ⟨after, flow⟩ := flow_visit new decoded
    rw [after]
    exact touches_take followed.sound followed.linked tracked (Except.ok.inj (flow.symm.trans own))
  · intro known
    obtain ⟨entry, here⟩ := Option.ne_none_iff_exists'.mp known
    rw [visit, here]

def askingData : Datagram :=
  between 1 1000 2000 7 (DataChunk.write ⟨10, 1, 5, 0, [65], false, true, true⟩)

/-- The other end acknowledges the data and sends its own, in one packet. -/
def bundledAnswer : Datagram :=
  between 2 2000 1000 7
    (DataChunk.write ⟨90, 1, 5, 0, [66], false, true, true⟩ ++
      SackChunk.write ⟨10, 1500, [], [], []⟩ false)

theorem touches_bundled_answer :
    let s := ((start {}).visitAll [askingData]).1
    let t := (s.visit bundledAnswer).1.tables.tracker
    (start {}).Fresh ∧
      (∃ p, Packet.decode bundledAnswer.data = .ok p ∧ Touches s.config bundledAnswer.stamp
        ((decodable p.chunks).filterMap (HalfEvent.ofChunk? bundledAnswer.stamp)) ⟨0, .reverse⟩
        s.tables.tracker t) ∧
      t.halves.map (·.peer) = [some 1, some 0] ∧
      t.halves.map (·.cumulative) = [some 0, none] ∧
      t.halves.map (·.ack? 0) = [some bundledAnswer.stamp, none] := by
  intro s t
  have fresh : (start {}).Fresh := Or.inl ⟨{}, rfl⟩
  obtain ⟨-, next⟩ := touches_visit fresh [askingData]
  have decodes : (Packet.decode bundledAnswer.data).toOption.isSome = true := by decide +kernel
  refine ⟨fresh, ?_, by decide +kernel, by decide +kernel, by decide +kernel⟩
  cases decoded : Packet.decode bundledAnswer.data with
  | error e =>
    rw [decoded] at decodes
    cases decodes
  | ok p =>
    exact ⟨p, rfl, (next bundledAnswer rfl).1 p _ (by decide +kernel) decoded (by decide +kernel)⟩

end SctpTrace.Session
