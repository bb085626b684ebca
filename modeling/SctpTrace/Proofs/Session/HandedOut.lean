import SctpTrace.Proofs.Isolation.Run
import SctpTrace.Proofs.Session.Returned

/-!
How often user data is handed out. The tracker and the reassembler both tell data that comes again
by the frame that brings it: what another frame brought is not handed out again, what the same
frame repeats is (`handed_out_in_one_frame`).
-/
namespace SctpTrace.Session

open Wire Reassembly Transmission

def handed (chunks : List ChunkPass) (f : Flow) (tsn : UInt32) : List ChunkPass :=
  chunks.filter fun x =>
    x.flow == some f && x.facts?.any fun d => d.tsn == tsn && d.delivery.payload?.isSome

def carriers (chunks : List ChunkPass) (f : Flow) (tsn : UInt32) (frame : FrameNumber) :
    List ChunkPass :=
  chunks.filter fun x =>
    x.frame == frame && x.flow == some f && x.facts?.any fun d => d.tsn == tsn

variable {s : Session} {ctx : Context} {flow : Option Flow} {x : ChunkPass}
  {chunks : List ChunkPass} {config : Config} {f : Flow} {tsn : UInt32} {frame : FrameNumber}

/- The frame that hands out the data of a TSN is the first one that carried it. -/

theorem Context.Tracks.firstFrame? {t t' : Tracker} (tracks : ctx.Tracks flow t t')
    (sound : t.Sound) (known : t.firstFrame? f tsn = some frame) :
    t'.firstFrame? f tsn = some frame := by
  cases tracks with
  | same => exact known
  | sender found _ keeps => exact sound.firstFrame?_setHalf found keeps known
  | peer found _ keeps => exact sound.firstFrame?_setHalf found keeps known

theorem firstFrame?_transmit {t : Tracker} (sound : t.Sound) (seated : ctx.Seated (some f) t)
    (placed : ctx.sender.isSome = true) (tsn : UInt32)
    (new : (ctx.transmit t tsn).2.any (·.isRetransmission) = false) :
    (ctx.transmit t tsn).1.firstFrame? f tsn = some ctx.stamp.frame := by
  obtain ⟨id, place⟩ := Option.isSome_iff_exists.mp placed
  obtain ⟨h, found, own⟩ := seated id place
  cases own
  have founded := sound.founded h (List.mem_of_getElem? found)
  have taken : ctx.transmit t tsn =
      (t.setHalf id (h.transmit tsn ctx.stamp ctx.config.tsn.maxRetransmissionsTracked).1,
        some (h.transmit tsn ctx.stamp ctx.config.tsn.maxRetransmissionsTracked).2) := by
    simp [Context.transmit, place, Tracker.transmit, found]
  rw [taken, Option.any_some, Half.isRetransmission_transmit founded] at new
  rw [taken, Tracker.firstFrame?, sound.ofFlow?_setHalf found Half.keeps_transmit.flow, if_pos rfl,
    Option.bind_some, Half.firstFrame?_transmit founded, if_pos rfl]
  cases known : h.firstFrame? tsn with
  | none => rfl
  | some first =>
    rw [known] at new
    have same : first = ctx.stamp.frame := by simpa using new
    rw [same]
    rfl

theorem mem_handed_iff : x ∈ handed chunks f tsn ↔
    x ∈ chunks ∧ x.flow = some f ∧ ∃ d, x.facts? = some d ∧ d.tsn = tsn ∧
      d.delivery.payload?.isSome = true := by
  simp [handed, Option.any_eq_true]

theorem ChunkPass.Taken.firstFrame? (taken : x.Taken config) (tracked : config.tsn.enabled = true)
    (own : x.flow = some f) {d : DataFacts} (told : x.facts? = some d)
    (handedOut : d.delivery.payload?.isSome = true) :
    x.after.tracker.firstFrame? f d.tsn = some x.frame := by
  rcases x.unit_cases with ⟨-, silent, -⟩ | ⟨u, takes⟩
  · rw [silent] at told
    cases told
  obtain ⟨e, same, tsn, delivery⟩ := takes.told
  rw [told] at same
  cases same
  have seated := taken.seated
  rw [own] at seated
  have placed := taken.tracked tracked (by rw [own]; rfl)
  rw [takes.tracker, tsn]
  apply firstFrame?_transmit taken.sound seated placed
  apply Bool.eq_false_iff.mpr
  intro again
  rw [delivery, Context.delivered, if_pos again] at handedOut
  cases handedOut

theorem firstFrame?_handed (blank : s.tables = ⟨.empty, .empty⟩)
    (tracked : s.config.tsn.enabled = true) (run : List Datagram) :
    ∀ f tsn, ∀ x ∈ handed (s.passes run) f tsn,
      (s.visitAll run).1.tables.tracker.firstFrame? f tsn = some x.frame := by
  apply passes_induction (P := fun l tables => ∀ f tsn, ∀ x ∈ handed l f tsn,
    tables.tracker.firstFrame? f tsn = some x.frame)
  · intro l tables g kept f tsn x there
    rw [Tracker.firstFrame?_ensure]
    exact kept f tsn x there
  · intro l x taken kept f tsn y there
    obtain ⟨member, own, d, told, rfl, out⟩ := mem_handed_iff.mp there
    rcases List.mem_append.mp member with old | last
    · have known := kept f d.tsn y (mem_handed_iff.mpr ⟨old, own, d, told, rfl, out⟩)
      exact (tracks_takeRaw taken.sound taken.seated x.raw).firstFrame? taken.sound known
    · rw [List.mem_singleton.mp last] at own told ⊢
      exact taken.firstFrame? tracked own told out
  · rw [blank]
    exact Tracker.sound_empty
  · intro f tsn x absent
    cases absent

/-- All data of one TSN is handed out by one frame, and every message is returned by the frame that
completed it: once, unless this frame brings the TSN or a position of the message again. -/
theorem handed_out_in_one_frame {session : Session} (fresh : session.Fresh)
    (tracked : session.config.tsn.enabled = true) (run : List Datagram) :
    let chunks := session.passes run
    let store := (session.visitAll run).1.tables.store
    (chunks.map (·.told)).Perm ((onceEach (session.visitAll run).2).flatMap (·.told)) ∧
      (∀ f tsn, ∃ frame, (∀ x ∈ handed chunks f tsn, x.frame = frame) ∧
        ((carriers chunks f tsn frame).length ≤ 1 → (handed chunks f tsn).length ≤ 1)) ∧
      (∀ key, ∀ m ∈ (store.held key).completed, Returned chunks key m) ∧
      ∀ x ∈ chunks, ∀ data frames, x.delivery? = some (.reassembled data frames) →
        ∃ key, ∃ m ∈ (store.held key).completed, x.returns key m = true := by
  intro chunks store
  obtain ⟨unseen, blank⟩ := fresh.unseen
  have accounts := accounts_passes blank run
  refine ⟨told_onceEach unseen run, ?_, ?_, ?_⟩
  · intro f tsn
    have first := firstFrame?_handed blank tracked run f tsn
    refine ⟨((session.visitAll run).1.tables.tracker.firstFrame? f tsn).getD 0, ?_, ?_⟩
    · intro x there
      rw [first x there]
      rfl
    · apply Nat.le_trans
      rw [handed, carriers, ← List.countP_eq_length_filter, ← List.countP_eq_length_filter]
      apply List.countP_mono_left
      intro x there out
      have frame := first x (List.mem_filter.mpr ⟨there, out⟩)
      rw [frame, Option.getD_some]
      simp only [Bool.and_eq_true, beq_iff_eq, Option.any_eq_true] at out ⊢
      obtain ⟨own, d, told, same, -⟩ := out
      exact ⟨⟨trivial, own⟩, d, told, same⟩
  · exact fun key m member => (accounts key).answers.returned m member
  · intro x there data frames told
    rcases x.fragment_cases with ⟨-, silent⟩ | ⟨key, a, brings⟩
    · exact absurd told (silent data frames)
    · obtain ⟨m, member, returns⟩ :=
        (accounts key).answers.held x there a.position data frames brings.fragment told
      exact ⟨key, m, member, returns⟩

/-- One frame that brings a message in one piece twice, and a message in two fragments with the last
one twice; another frame brings all of it again. -/
def repeatingFrame : List Datagram :=
  let chunks := DataChunk.write ⟨10, 1, 5, 0, [65], false, true, true⟩ ++
    DataChunk.write ⟨10, 1, 5, 0, [65], false, true, true⟩ ++
    DataChunk.write ⟨11, 1, 6, 0, [66], false, true, false⟩ ++
    DataChunk.write ⟨12, 1, 6, 0, [67], false, false, true⟩ ++
    DataChunk.write ⟨12, 1, 6, 0, [67], false, false, true⟩
  [between 1 2905 2906 7 chunks, between 2 2905 2906 7 chunks]

def repeatedKey : MessageKey := ⟨2905, 2906, 7, 1, 6, false⟩

def repeatedMessage : Message := ⟨11, 12, 1, [1], [66, 67]⟩

theorem handed_out_by_a_repeating_frame :
    (start {}).Fresh ∧ (start {}).config.tsn.enabled = true ∧
      (handed ((start {}).passes repeatingFrame) ⟨0, .forward⟩ 10).length = 2 ∧
      Returned ((start {}).passes repeatingFrame) repeatedKey repeatedMessage := by
  have fresh : (start {}).Fresh := Or.inl ⟨{}, rfl⟩
  obtain ⟨-, -, whole, -⟩ := handed_out_in_one_frame fresh rfl repeatingFrame
  exact ⟨fresh, rfl, by decide +kernel, whole _ _ (by decide +kernel)⟩

/-- Data is not handed out once whatever a frame brings: a frame that repeats a TSN is handed its data
each time, and a frame that repeats a position is returned its message each time. -/
theorem handed_out_more_than_once :
    (¬ ∀ session : Session, session.Fresh → session.config.tsn.enabled = true →
      ∀ run f tsn, (handed (session.passes run) f tsn).length ≤ 1) ∧
    ¬ ∀ session : Session, session.Fresh → session.config.tsn.enabled = true →
      ∀ run key, ∀ m ∈ ((session.visitAll run).1.tables.store.held key).completed,
        (returned (session.passes run) key m).length = 1 := by
  have fresh : (start {}).Fresh := Or.inl ⟨{}, rfl⟩
  constructor
  · intro once
    have two : (handed ((start {}).passes repeatingFrame) ⟨0, .forward⟩ 10).length = 2 := by
      decide +kernel
    have one := once _ fresh rfl repeatingFrame ⟨0, .forward⟩ 10
    omega
  · intro once
    have two : (returned ((start {}).passes repeatingFrame) repeatedKey repeatedMessage).length =
        2 := by
      decide +kernel
    have one := once _ fresh rfl repeatingFrame repeatedKey repeatedMessage (by decide +kernel)
    omega

end SctpTrace.Session
