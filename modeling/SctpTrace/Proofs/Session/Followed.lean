import SctpTrace.Proofs.Session.Reply
import SctpTrace.Proofs.Transmission.Events

/-!
What became of each half. A chunk moves the half that it reaches and leaves the others as they are
(`ChunkPass.Taken.moves`), so that a packet moves each half by what reaches it (`moves_takeAll`), and
after a run each half is what all that reached its flow makes of a new one (`followed_visitAll`).
-/
namespace SctpTrace.Session

open Wire Transmission

def ChunkPass.event? (x : ChunkPass) : Option HalfEvent :=
  x.raw.decode.toOption.bind (HalfEvent.ofChunk? x.ctx.stamp)

def ChunkPass.eventFor? (x : ChunkPass) (g : Flow) : Option HalfEvent :=
  x.event?.filter fun e => e.reaches x.flow g

def eventsFor (chunks : List ChunkPass) (g : Flow) : List HalfEvent :=
  chunks.filterMap (·.eventFor? g)

variable {s : Session} {ctx : Context} {flow : Option Flow} {tables : Tables} {x : ChunkPass}
  {d : Datagram} {p : Packet} {t : Tracker} {config : Config} {f g : Flow} {e : HalfEvent}
  {chunks later : List ChunkPass}

theorem eventsFor_append :
    eventsFor (chunks ++ later) g = eventsFor chunks g ++ eventsFor later g :=
  List.filterMap_append

theorem eventsFor_singleton : eventsFor [x] g = (x.eventFor? g).toList := by
  rw [eventsFor, List.filterMap_cons]
  cases x.eventFor? g <;> rfl

/- One chunk. -/

def Context.moved (ctx : Context) (flow : Option Flow) (e : HalfEvent) (h : Half) : Half :=
  if e.reaches flow h.flow then
    h.step ctx.config.ackLimits ctx.config.tsn.maxRetransmissionsTracked e
  else h

theorem moved_eq {h : Half} (target : flow.map e.target = some f) :
    ctx.moved flow e h =
      if h.flow = f then h.step ctx.config.ackLimits ctx.config.tsn.maxRetransmissionsTracked e
      else h := by
  rw [Context.moved, HalfEvent.reaches, target]
  by_cases same : h.flow = f
  · rw [if_pos same, same, beq_self_eq_true, if_pos rfl]
  · rw [if_neg same, if_neg (by simpa using Ne.symm same)]

theorem map_moved_none (t : Tracker) : t.halves.map (ctx.moved none e) = t.halves :=
  List.map_id'' (fun _ => rfl) _

theorem halves_setHalf_step {id : Nat} {h : Half} (sound : t.Sound) (found : t.half? id = some h)
    (e : HalfEvent) (target : flow.map e.target = some h.flow) :
    (t.setHalf id
        (h.step ctx.config.ackLimits ctx.config.tsn.maxRetransmissionsTracked e)).halves =
      t.halves.map (ctx.moved flow e) := by
  rw [sound.setHalf_eq_map found
    fun g => g.step ctx.config.ackLimits ctx.config.tsn.maxRetransmissionsTracked e]
  exact List.map_congr_left fun g _ => (moved_eq target).symm

section Chunk

variable (sound : t.Sound) (seated : ctx.Seated flow t)
  (tracked : flow.isSome = true → ctx.sender.isSome = true)

include seated tracked

theorem sender_cases : (flow = none ∧ ctx.sender = none) ∨
    ∃ id h, ctx.sender = some id ∧ t.half? id = some h ∧ flow = some h.flow := by
  cases place : ctx.sender with
  | none =>
    cases own : flow with
    | none => exact Or.inl ⟨rfl, rfl⟩
    | some f =>
      have seat := tracked (by rw [own]; rfl)
      rw [place] at seat
      cases seat
  | some id =>
    obtain ⟨h, found, own⟩ := seated id place
    exact Or.inr ⟨id, h, rfl, found, own⟩

include sound

theorem transmit_moves (tsn : UInt32) : (ctx.transmit t tsn).1.halves =
    t.halves.map (ctx.moved flow (.transmit tsn ctx.stamp)) := by
  rcases sender_cases seated tracked with ⟨rfl, place⟩ | ⟨id, h, place, found, rfl⟩
  · rw [map_moved_none, Context.transmit, place]
  · simp only [Context.transmit, place, Tracker.transmit, found]
    exact halves_setHalf_step sound found (.transmit tsn ctx.stamp) rfl

theorem setBaseline_moves (store : Reassembly.Store) (chunk : InitChunk) (ack : Bool) :
    (ctx.takeInit ⟨t, store⟩ chunk ack).1.tracker.halves =
      t.halves.map (ctx.moved flow (.announce chunk.initialTsn)) := by
  rcases sender_cases seated tracked with ⟨rfl, place⟩ | ⟨id, h, place, found, rfl⟩
  · rw [map_moved_none, Context.takeInit, place]
  · simp only [Context.takeInit, place, Tracker.setBaseline, found]
    exact halves_setHalf_step sound found (.announce chunk.initialTsn) rfl

theorem sack_moves (linked : t.Linked) (chunk : SackChunk) (nonRenegable : Bool) :
    (t.sack (ctx.sender.bind t.peer?) ctx.config.ackLimits chunk nonRenegable ctx.stamp).1.halves =
      t.halves.map (ctx.moved flow (.sack chunk nonRenegable ctx.stamp)) := by
  rcases sender_cases seated tracked with ⟨rfl, place⟩ | ⟨id, h, place, found, rfl⟩
  · rw [map_moved_none, place]
    rfl
  have acknowledged : ctx.sender.bind t.peer? = h.peer := by
    rw [place, Option.bind_some, Tracker.peer?, found]
    rfl
  rw [acknowledged]
  cases known : h.peer with
  | none =>
    -- There is no half to acknowledge: it would be the peer.
    have same : ∀ g ∈ t.halves,
        ctx.moved (some h.flow) (.sack chunk nonRenegable ctx.stamp) g = g := by
      intro g there
      obtain ⟨j, here⟩ := List.mem_iff_getElem?.mp there
      rw [moved_eq rfl, if_neg]
      intro opposite
      have peer := linked id j h g found here opposite
      rw [known] at peer
      cases peer
    rw [List.map_congr_left same, List.map_id']
    rfl
  | some j =>
    obtain ⟨other, there, opposite⟩ := sound.peers id j h found known
    simp only [Tracker.sack, Option.bind_some, there, Option.map_some]
    exact halves_setHalf_step sound there (.sack chunk nonRenegable ctx.stamp)
      (congrArg some opposite.symm)

end Chunk

theorem ChunkPass.Taken.moves (taken : x.Taken config) (tracked : config.tsn.enabled = true)
    (linked : x.before.tracker.Linked) :
    x.after.tracker.halves = x.before.tracker.halves.map fun h =>
      h.follow config.ackLimits config.tsn.maxRetransmissionsTracked
        (x.eventFor? h.flow).toList := by
  obtain ⟨rfl, sound, seated, placed⟩ := taken
  have placed := placed tracked
  have event : ∀ e, x.event? = some e →
      x.before.tracker.halves.map (x.ctx.moved x.flow e) = x.before.tracker.halves.map fun h =>
        h.follow x.ctx.config.ackLimits x.ctx.config.tsn.maxRetransmissionsTracked
          (x.eventFor? h.flow).toList := by
    intro e known
    refine List.map_congr_left fun h _ => ?_
    rw [eventFor?, known, Option.filter_some, Context.moved]
    split <;> rfl
  have nothing : x.event? = none →
      x.before.tracker.halves = x.before.tracker.halves.map fun h =>
        h.follow x.ctx.config.ackLimits x.ctx.config.tsn.maxRetransmissionsTracked
          (x.eventFor? h.flow).toList := by
    intro unknown
    refine (List.map_id' _).symm.trans (List.map_congr_left fun h _ => ?_)
    rw [eventFor?, unknown]
    rfl
  unfold event? at event nothing
  unfold after Context.takeRaw
  cases decoded : x.raw.decode with
  | error reason => exact nothing (by rw [decoded]; rfl)
  | ok chunk =>
    rw [decoded] at event nothing
    cases chunk with
    | data c => exact (transmit_moves sound seated placed c.tsn).trans (event _ rfl)
    | interleaved c => exact (transmit_moves sound seated placed c.tsn).trans (event _ rfl)
    | sack c => exact (sack_moves sound seated placed linked c false).trans (event _ rfl)
    | nrSack c => exact (sack_moves sound seated placed linked c true).trans (event _ rfl)
    | init c =>
      exact (setBaseline_moves sound seated placed x.before.store c false).trans (event _ rfl)
    | initAck c =>
      exact (setBaseline_moves sound seated placed x.before.store c true).trans (event _ rfl)
    | abort reflected => exact nothing rfl
    | shutdownComplete reflected => exact nothing rfl
    | other code length => exact nothing rfl

theorem ChunkPass.Taken.unseen (taken : x.Taken config) (tracked : config.tsn.enabled = true)
    (unseen : g ∉ x.before.tracker.flows) (reached : x.eventFor? g = some e) : e.isAck = true := by
  cases ack : e.isAck with
  | true => rfl
  | false =>
    obtain ⟨-, reaches⟩ := Option.filter_eq_some_iff.mp reached
    rcases sender_cases taken.seated (taken.tracked tracked) with
      ⟨noFlow, -⟩ | ⟨id, h, -, found, own⟩
    · simp [HalfEvent.reaches, noFlow] at reaches
    · have same : h.flow = g := by
        simpa [HalfEvent.reaches, HalfEvent.target, own, ack] using reaches
      exact absurd (Tracker.mem_flows_iff.mpr ⟨id, h, found, same⟩) unseen

/- All chunks of a packet, and of a run. -/

theorem moves_takeAll (tracked : config.tsn.enabled = true) (raws : List RawChunk)
    (first : ∀ raw, ChunkPass.Taken config ⟨ctx, flow, tables, raw⟩)
    (linked : tables.tracker.Linked) :
    (ctx.takeAll tables raws).1.tracker.halves = tables.tracker.halves.map fun h =>
      h.follow config.ackLimits config.tsn.maxRetransmissionsTracked
        (eventsFor (ctx.passes flow tables raws) h.flow) := by
  have moved := takeAll_induction
    (P := fun l after => after.tracker.Linked ∧
      after.tracker.halves = tables.tracker.halves.map fun h =>
        h.follow config.ackLimits config.tsn.maxRetransmissionsTracked (eventsFor l h.flow))
    [] ?_ raws first ?_
  · exact moved.2
  · rintro l x taken ⟨linked, before⟩
    refine ⟨((tracks_takeRaw taken.sound taken.seated x.raw).linked linked).1, ?_⟩
    rw [taken.moves tracked linked, before, List.map_map]
    refine List.map_congr_left fun h _ => ?_
    rw [Function.comp_apply, Half.flow_follow, ← Half.follow_append, eventsFor_append,
      eventsFor_singleton]
  · exact ⟨linked, (List.map_id' _).symm⟩

structure Followed (config : Config) (chunks : List ChunkPass) (t : Tracker) : Prop where
  sound : t.Sound
  linked : t.Linked
  seen : t.halves.map Half.unlinked = t.flows.map fun g =>
    (Half.new g).follow config.ackLimits config.tsn.maxRetransmissionsTracked (eventsFor chunks g)
  unseen : ∀ g, g ∉ t.flows →
    (Half.new g).follow config.ackLimits config.tsn.maxRetransmissionsTracked (eventsFor chunks g) =
      .new g

theorem Followed.ensure (followed : Followed config chunks t) (f : Flow) :
    Followed config chunks (t.ensure f).1 := by
  obtain ⟨sound, linked, seen, unseen⟩ := followed
  refine ⟨sound.ensure, linked.ensure sound, ?_, ?_⟩
  · rw [Tracker.unlinked_ensure, seen, Tracker.flows_ensure, List.map_append]
    split
    · rfl
    · rename_i new
      rw [List.map_singleton, unseen f new]
  · intro g absent
    exact unseen g fun there => absent (Tracker.mem_flows_ensure.mpr (Or.inl there))

theorem ChunkPass.Taken.followed (taken : x.Taken config) (tracked : config.tsn.enabled = true)
    (followed : Followed config chunks x.before.tracker) :
    Followed config (chunks ++ [x]) x.after.tracker := by
  obtain ⟨sound, linked, seen, unseen⟩ := followed
  have tracks := tracks_takeRaw taken.sound taken.seated x.raw
  obtain ⟨linkedAfter, flows⟩ := tracks.linked linked
  have moved := taken.moves tracked linked
  refine ⟨(tracks.kept sound taken.seated).1, linkedAfter, ?_, ?_⟩
  · have flows : x.after.tracker.flows = x.before.tracker.flows := flows
    have step : x.after.tracker.halves.map Half.unlinked =
        (x.before.tracker.halves.map Half.unlinked).map fun h =>
          h.follow config.ackLimits config.tsn.maxRetransmissionsTracked
            (x.eventFor? h.flow).toList := by
      rw [moved, List.map_map, List.map_map]
      exact List.map_congr_left fun h _ => Half.unlinked_follow
    rw [step, seen, flows, List.map_map]
    refine List.map_congr_left fun g _ => ?_
    rw [Function.comp_apply, Half.flow_follow, ← Half.follow_append, eventsFor_append,
      eventsFor_singleton]
    rfl
  · intro g absent
    have before : g ∉ x.before.tracker.flows := fun there => absent (flows ▸ there)
    rw [eventsFor_append, eventsFor_singleton, Half.follow_append, unseen g before]
    cases reached : x.eventFor? g with
    | none => rfl
    | some e => exact Half.step_new_of_isAck (taken.unseen tracked before reached)

/-- After a run each half is what all that reached its flow makes of a new one. -/
theorem followed_visitAll (fresh : s.Fresh) (tracked : s.config.tsn.enabled = true)
    (run : List Datagram) :
    Followed s.config (s.passes run) (s.visitAll run).1.tables.tracker := by
  apply passes_induction (P := fun l tables => Followed s.config l tables.tracker)
  · exact fun _ _ f followed => followed.ensure f
  · exact fun _ _ taken followed => taken.followed tracked followed
  · exact fresh.peered.sound
  · rw [fresh.unseen.2]
    exact ⟨Tracker.sound_empty, Tracker.linked_empty, rfl, fun _ _ => rfl⟩

theorem Followed.half (followed : Followed config chunks t) {h : Half} (there : h ∈ t.halves) :
    h.unlinked = (Half.new h.flow).follow config.ackLimits config.tsn.maxRetransmissionsTracked
      (eventsFor chunks h.flow) := by
  have seen := followed.seen
  rw [Tracker.flows, List.map_map] at seen
  exact List.map_inj_left.mp seen h there

/- Without tracking there are no halves. -/

theorem Context.Tracks.nothing {t' : Tracker} (tracks : ctx.Tracks flow t t')
    (none : t.halves = []) : t'.halves = [] := by
  cases tracks with
  | same => exact none
  | sender found => simp [Tracker.half?, none] at found
  | peer found => simp [Tracker.half?, none] at found

theorem untracked_visit (off : s.config.tsn.enabled = false) (none : s.tables.tracker.halves = [])
    (d : Datagram) : (s.visit d).1.tables.tracker.halves = [] := by
  have visited := visit_cases s d
  generalize s.visit d = outcome at visited ⊢
  cases visited with
  | repeated entry known => exact none
  | refused e new undecoded => exact none
  | taken p new decoded =>
    have opened : (s.opened d p).tracker = s.tables.tracker := by
      unfold opened sender
      cases (s.assign d p).2 <;> simp [off]
    have sound : s.tables.tracker.Sound := by
      rw [← show Tracker.empty = s.tables.tracker from congrArg Tracker.mk none.symm]
      exact Tracker.sound_empty
    rw [tables_take]
    apply takeAll_induction (P := fun _ tables => tables.tracker.halves = []) [] _ p.chunks
      (taken_first sound d p)
    · rw [opened]
      exact none
    · intro l x taken empty
      exact (tracks_takeRaw taken.sound taken.seated x.raw).nothing empty

theorem Fresh.untracked_visitAll (fresh : s.Fresh) (off : s.config.tsn.enabled = false)
    (run : List Datagram) : (s.visitAll run).1.tables.tracker.halves = [] := by
  have start : s.tables.tracker.halves = [] := by
    rw [fresh.unseen.2]
    rfl
  clear fresh
  induction run generalizing s with
  | nil => exact start
  | cons d rest ih =>
    have later : (s.visit d).1.config.tsn.enabled = false := by rwa [config_visit]
    exact ih later (untracked_visit off start d)

end SctpTrace.Session
