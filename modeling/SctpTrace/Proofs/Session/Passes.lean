import SctpTrace.Proofs.Session.Analyses
import SctpTrace.Proofs.Transmission.Flows

/-!
The chunks of a run, each with the tables that it found. Between two chunks of a run nothing is
changed but for a half that is added, so that what every chunk keeps holds after the run
(`passes_induction`).
-/
namespace SctpTrace.Session

open Wire

/-- A chunk of an analyzed packet, with the flow of the packet and the tables before it. -/
structure ChunkPass where
  ctx : Context
  flow : Option Flow
  before : Tables
  raw : RawChunk
  deriving DecidableEq, Repr

namespace ChunkPass

def report (x : ChunkPass) : ChunkReport := (x.ctx.takeRaw x.before x.raw).2

def after (x : ChunkPass) : Tables := (x.ctx.takeRaw x.before x.raw).1

def frame (x : ChunkPass) : FrameNumber := x.ctx.stamp.frame

end ChunkPass

def Context.passes (ctx : Context) (flow : Option Flow) : Tables → List RawChunk → List ChunkPass
  | _, [] => []
  | tables, raw :: rest =>
    ⟨ctx, flow, tables, raw⟩ :: ctx.passes flow (ctx.takeRaw tables raw).1 rest

def context (s : Session) (d : Datagram) (p : Packet) : Context :=
  ⟨s.config, p.header, d.stamp, (s.sender (s.assign d p).2).2⟩

def opened (s : Session) (d : Datagram) (p : Packet) : Tables :=
  { s.tables with tracker := (s.sender (s.assign d p).2).1 }

/-- The chunks of a datagram if it is analyzed now; another pass over a frame takes none. -/
def passesOf (s : Session) (d : Datagram) : List ChunkPass :=
  match Keyed.get? d.frame s.frames, Packet.decode d.data with
  | none, .ok p => (s.context d p).passes (s.assign d p).2 (s.opened d p) p.chunks
  | _, _ => []

def passes : Session → List Datagram → List ChunkPass
  | _, [] => []
  | s, d :: rest => s.passesOf d ++ (s.visit d).1.passes rest

variable {s : Session} {ctx : Context} {flow : Option Flow} {tables : Tables} {raw : RawChunk}
  {d : Datagram} {p : Packet}

theorem takeRaw_cases {P : Tables × ChunkReport → Prop} (data : ∀ u, P (ctx.takeData tables u))
    (sack : ∀ chunk nonRenegable, P (ctx.takeSack tables chunk nonRenegable))
    (init : ∀ chunk ack, P (ctx.takeInit tables chunk ack))
    (idle : ∀ facts : ChunkFacts, facts.data? = none → facts.sack? = none →
      P (tables, ⟨facts, [], .zero⟩))
    (malformed : ∀ reason, P (tables, malformedReport raw reason)) :
    P (ctx.takeRaw tables raw) := by
  unfold Context.takeRaw
  split
  · rename_i chunk _
    cases chunk with
    | data c => exact data _
    | interleaved c => exact data _
    | sack c => exact sack c false
    | nrSack c => exact sack c true
    | init c => exact init c false
    | initAck c => exact init c true
    | abort reflected => exact idle _ rfl rfl
    | shutdownComplete reflected => exact idle _ rfl rfl
    | other code length => exact idle _ rfl rfl
  · exact malformed _

def Context.Seated (ctx : Context) (flow : Option Flow) (t : Transmission.Tracker) : Prop :=
  ∀ id, ctx.sender = some id → ∃ h, t.half? id = some h ∧ flow = some h.flow

/-- A chunk may move one half on: the sender's by its data or its INIT, the peer by a SACK. -/
inductive Context.Tracks (ctx : Context) (flow : Option Flow) (t : Transmission.Tracker) :
    Transmission.Tracker → Prop where
  | same : ctx.Tracks flow t t
  | sender {id : Nat} {h after : Transmission.Half} (found : t.half? id = some h)
      (own : flow = some h.flow) (keeps : h.Keeps after) : ctx.Tracks flow t (t.setHalf id after)
  | peer {id : Nat} {h after : Transmission.Half} (found : t.half? id = some h)
      (own : flow = some h.flow.opposite) (keeps : h.Keeps after) :
      ctx.Tracks flow t (t.setHalf id after)

section Steps

variable {t : Transmission.Tracker}

theorem transmit_cases (seated : ctx.Seated flow t) (tsn : UInt32) :
    ctx.transmit t tsn = (t, none) ∨
      ∃ id h, t.half? id = some h ∧ flow = some h.flow ∧ ctx.transmit t tsn =
        (t.setHalf id (h.transmit tsn ctx.stamp ctx.config.tsn.maxRetransmissionsTracked).1,
          some (h.transmit tsn ctx.stamp ctx.config.tsn.maxRetransmissionsTracked).2) := by
  unfold Context.transmit
  split
  · exact Or.inl rfl
  · rename_i id place
    obtain ⟨h, found, own⟩ := seated id place
    exact Or.inr ⟨id, h, found, own, by simp [Transmission.Tracker.transmit, found]⟩

theorem sack_cases (sound : t.Sound) (seated : ctx.Seated flow t) (chunk : SackChunk)
    (nonRenegable : Bool) :
    t.sack (ctx.sender.bind t.peer?) ctx.config.ackLimits chunk nonRenegable ctx.stamp =
        (t, Transmission.sackFacts ctx.config.ackLimits chunk nonRenegable []) ∨
      ∃ id h, t.half? id = some h ∧ flow = some h.flow.opposite ∧
        t.sack (ctx.sender.bind t.peer?) ctx.config.ackLimits chunk nonRenegable ctx.stamp =
          (t.setHalf id (h.sack ctx.config.ackLimits chunk nonRenegable ctx.stamp).1,
            (h.sack ctx.config.ackLimits chunk nonRenegable ctx.stamp).2) := by
  cases known : ctx.sender.bind t.peer? with
  | none => exact Or.inl rfl
  | some id =>
    obtain ⟨place, seat, linked⟩ := Option.bind_eq_some_iff.mp known
    obtain ⟨own, found, isFlow⟩ := seated place seat
    have peer : own.peer = some id := by
      simpa [Transmission.Tracker.peer?, found] using linked
    obtain ⟨h, there, opposite⟩ := sound.peers place id own found peer
    refine Or.inr ⟨id, h, there, ?_, by simp [Transmission.Tracker.sack, there]⟩
    rw [opposite, Flow.opposite_opposite]
    exact isFlow

theorem setBaseline_cases (seated : ctx.Seated flow t) (chunk : InitChunk) (ack : Bool)
    (store : Reassembly.Store) :
    (ctx.takeInit ⟨t, store⟩ chunk ack).1 = ⟨t, store⟩ ∨
      ∃ id h, t.half? id = some h ∧ flow = some h.flow ∧
        (ctx.takeInit ⟨t, store⟩ chunk ack).1 =
          ⟨t.setHalf id (h.setBaseline chunk.initialTsn).1, store⟩ := by
  unfold Context.takeInit
  cases place : ctx.sender with
  | none => exact Or.inl rfl
  | some id =>
    obtain ⟨h, found, own⟩ := seated id place
    exact Or.inr ⟨id, h, found, own, by simp [Transmission.Tracker.setBaseline, found]⟩

theorem tracks_takeRaw (sound : tables.tracker.Sound) (seated : ctx.Seated flow tables.tracker)
    (raw : RawChunk) :
    ctx.Tracks flow tables.tracker (ctx.takeRaw tables raw).1.tracker := by
  apply takeRaw_cases (P := fun taken => ctx.Tracks flow tables.tracker taken.1.tracker)
  · intro u
    change ctx.Tracks flow _ (ctx.transmit tables.tracker u.tsn).1
    rcases transmit_cases seated u.tsn with same | ⟨id, h, found, own, after⟩
    · rw [same]
      exact .same
    · rw [after]
      exact .sender found own Transmission.Half.keeps_transmit
  · intro chunk nonRenegable
    change ctx.Tracks flow _ (tables.tracker.sack _ _ chunk nonRenegable ctx.stamp).1
    rcases sack_cases sound seated chunk nonRenegable with same | ⟨id, h, found, own, after⟩
    · rw [same]
      exact .same
    · rw [after]
      exact .peer found own (Transmission.Half.keeps_sack chunk nonRenegable)
  · intro chunk ack
    rcases setBaseline_cases seated chunk ack tables.store with same | ⟨id, h, found, own, after⟩
    · rw [same]
      exact .same
    · rw [after]
      exact .sender found own Transmission.Half.keeps_setBaseline
  · exact fun _ _ _ => .same
  · exact fun _ => .same

theorem Context.Tracks.kept {t' : Transmission.Tracker} (tracks : ctx.Tracks flow t t')
    (sound : t.Sound) (seated : ctx.Seated flow t) : t'.Sound ∧ ctx.Seated flow t' := by
  have moved : ∀ {id h after}, t.half? id = some h → Transmission.Half.Keeps h after →
      (t.setHalf id after).Sound ∧ ctx.Seated flow (t.setHalf id after) := by
    intro id h after found keeps
    refine ⟨sound.setHalf found keeps, ?_⟩
    intro place seat
    obtain ⟨own, there, isFlow⟩ := seated place seat
    rw [Transmission.Tracker.half?_setHalf found]
    split
    · rename_i same
      subst same
      rw [found] at there
      cases there
      exact ⟨after, rfl, by rw [keeps.flow, isFlow]⟩
    · exact ⟨own, there, isFlow⟩
  cases tracks with
  | same => exact ⟨sound, seated⟩
  | sender found _ keeps => exact moved found keeps
  | peer found _ keeps => exact moved found keeps

end Steps

/-- A chunk of a run with this configuration. If TSNs are tracked, a packet with a flow has its
sender. -/
structure ChunkPass.Taken (config : Config) (x : ChunkPass) : Prop where
  configured : x.ctx.config = config
  sound : x.before.tracker.Sound
  seated : x.ctx.Seated x.flow x.before.tracker
  tracked : config.tsn.enabled = true → x.flow.isSome = true → x.ctx.sender.isSome = true

theorem taken_first (sound : s.tables.tracker.Sound) (d : Datagram) (p : Packet) (raw : RawChunk) :
    ChunkPass.Taken s.config ⟨s.context d p, (s.assign d p).2, s.opened d p, raw⟩ := by
  have seats : (s.sender (s.assign d p).2).1.Sound ∧
      Context.Seated (s.context d p) (s.assign d p).2 (s.sender (s.assign d p).2).1 ∧
      (s.config.tsn.enabled = true → (s.assign d p).2.isSome = true →
        (s.sender (s.assign d p).2).2.isSome = true) := by
    unfold context sender
    cases (s.assign d p).2 with
    | none =>
      refine ⟨sound, ?_, ?_⟩
      · intro id absent
        cases absent
      · intro _ absent
        cases absent
    | some f =>
      simp only
      split
      · refine ⟨sound.ensure, ?_, fun _ _ => rfl⟩
        rintro id ⟨⟩
        obtain ⟨h, found, own⟩ := Transmission.Tracker.half?_ensure (t := s.tables.tracker) (f := f)
        exact ⟨h, found, congrArg some own.symm⟩
      · rename_i off
        refine ⟨sound, ?_, fun on => absurd on off⟩
        intro id absent
        cases absent
  exact ⟨rfl, seats.1, seats.2.1, seats.2.2⟩

theorem ChunkPass.Taken.next {config : Config} {x : ChunkPass} (taken : x.Taken config)
    (raw : RawChunk) : ChunkPass.Taken config { x with before := x.after, raw := raw } := by
  obtain ⟨sound, seated⟩ := (tracks_takeRaw taken.sound taken.seated x.raw).kept taken.sound taken.seated
  exact ⟨taken.configured, sound, seated, taken.tracked⟩

/-- Nothing but a half may be added between two chunks. -/
def Neutral (P : Tables → Prop) : Prop :=
  ∀ (tables : Tables) (f : Flow), P tables →
    P { tables with tracker := (tables.tracker.ensure f).1 }

variable {config : Config} {P : List ChunkPass → Tables → Prop}

theorem takeAll_induction (before : List ChunkPass)
    (step : ∀ l (x : ChunkPass), x.Taken config → P l x.before → P (l ++ [x]) x.after)
    (chunks : List RawChunk) (first : ∀ raw, ChunkPass.Taken config ⟨ctx, flow, tables, raw⟩)
    (start : P before tables) :
    P (before ++ ctx.passes flow tables chunks) (ctx.takeAll tables chunks).1 := by
  induction chunks generalizing tables before with
  | nil =>
    rw [Context.passes, List.append_nil]
    exact start
  | cons raw rest ih =>
    have later := ih _ (fun next => (first raw).next next) (step before _ (first raw) start)
    rwa [List.append_assoc, List.singleton_append] at later

theorem passesOf_taken (new : Keyed.get? d.frame s.frames = none)
    (decoded : Packet.decode d.data = .ok p) :
    s.passesOf d = (s.context d p).passes (s.assign d p).2 (s.opened d p) p.chunks := by
  rw [passesOf, new, decoded]

theorem tables_take (d : Datagram) (p : Packet) :
    (s.take d p).1.tables = ((s.context d p).takeAll (s.opened d p) p.chunks).1 := rfl

theorem opened_neutral {Q : Tables → Prop} (neutral : Neutral Q) (d : Datagram) (p : Packet)
    (start : Q s.tables) : Q (s.opened d p) := by
  unfold opened sender
  split
  · exact start
  · split
    · exact neutral s.tables _ start
    · exact start

theorem sound_visit (sound : s.tables.tracker.Sound) (d : Datagram) :
    (s.visit d).1.tables.tracker.Sound ∧ (s.visit d).1.config = s.config := by
  have visited := visit_cases s d
  generalize s.visit d = outcome at visited ⊢
  cases visited with
  | repeated entry known => exact ⟨sound, rfl⟩
  | refused e new undecoded => exact ⟨sound, rfl⟩
  | taken p new decoded =>
    refine ⟨?_, rfl⟩
    rw [tables_take]
    apply takeAll_induction (P := fun _ tables => tables.tracker.Sound) [] _ p.chunks
      (taken_first sound d p)
    · exact opened_neutral (Q := fun tables => tables.tracker.Sound) (fun _ _ kept => kept.ensure)
        d p sound
    · intro l x taken _
      exact ((tracks_takeRaw taken.sound taken.seated x.raw).kept taken.sound taken.seated).1

theorem sound_visitAll (sound : s.tables.tracker.Sound) (run : List Datagram) :
    (s.visitAll run).1.tables.tracker.Sound := by
  induction run generalizing s with
  | nil => exact sound
  | cons d rest ih => exact ih (sound_visit sound d).1

theorem visit_induction (before : List ChunkPass) (neutral : ∀ l, Neutral (P l))
    (step : ∀ l (x : ChunkPass), x.Taken s.config → P l x.before → P (l ++ [x]) x.after)
    (sound : s.tables.tracker.Sound) (d : Datagram) (start : P before s.tables) :
    P (before ++ s.passesOf d) (s.visit d).1.tables := by
  have visited := visit_cases s d
  generalize s.visit d = outcome at visited ⊢
  cases visited with
  | repeated entry known => simpa [passesOf, known] using start
  | refused e new undecoded => simpa [passesOf, new, undecoded] using start
  | taken p new decoded =>
    rw [passesOf_taken new decoded, tables_take]
    exact takeAll_induction before step p.chunks (taken_first sound d p)
      (opened_neutral (neutral before) d p start)

theorem passes_induction_from (before : List ChunkPass) (neutral : ∀ l, Neutral (P l))
    (step : ∀ l (x : ChunkPass), x.Taken s.config → P l x.before → P (l ++ [x]) x.after)
    (sound : s.tables.tracker.Sound) (run : List Datagram) (start : P before s.tables) :
    P (before ++ s.passes run) (s.visitAll run).1.tables := by
  induction run generalizing s before with
  | nil =>
    rw [passes, List.append_nil]
    exact start
  | cons d rest ih =>
    obtain ⟨soundLater, same⟩ := sound_visit sound d
    rw [passes, ← List.append_assoc, visitAll_cons]
    exact ih _ (by rwa [same]) soundLater (visit_induction before neutral step sound d start)

/-- What holds of the chunks so far and of the tables, and is kept by each chunk, holds of the
chunks of a run and of the tables after it. -/
theorem passes_induction (neutral : ∀ l, Neutral (P l))
    (step : ∀ l (x : ChunkPass), x.Taken s.config → P l x.before → P (l ++ [x]) x.after)
    (sound : s.tables.tracker.Sound) (run : List Datagram) (start : P [] s.tables) :
    P (s.passes run) (s.visitAll run).1.tables :=
  passes_induction_from [] neutral step sound run start

theorem passes_taken (sound : s.tables.tracker.Sound) (run : List Datagram) :
    ∀ x ∈ s.passes run, x.Taken s.config := by
  apply passes_induction (P := fun l _ => ∀ x ∈ l, x.Taken s.config)
  · exact fun _ _ _ kept => kept
  · intro l x taken kept y there
    rcases List.mem_append.mp there with old | last
    · exact kept y old
    · rw [List.mem_singleton.mp last]
      exact taken
  · exact sound
  · intro x absent
    cases absent

theorem sum_passes (ψ : Tables → Nat) {w : ChunkPass → Nat}
    (neutral : ∀ tables f, ψ { tables with tracker := (tables.tracker.ensure f).1 } = ψ tables)
    (step : ∀ x : ChunkPass, x.Taken s.config → ψ x.after = ψ x.before + w x)
    (sound : s.tables.tracker.Sound) (run : List Datagram) :
    ψ (s.visitAll run).1.tables = ψ s.tables + ((s.passes run).map w).sum := by
  apply passes_induction (P := fun l tables => ψ tables = ψ s.tables + (l.map w).sum)
  · intro l tables f kept
    rw [neutral, kept]
  · intro l x taken kept
    rw [step x taken, kept, List.map_append, List.sum_append, List.map_singleton,
      List.sum_singleton, Nat.add_assoc]
  · exact sound
  · rfl

/- The chunks of a run, told by what was answered. -/

def PacketFacts.told (p : PacketFacts) : List (FrameNumber × Option Flow × ChunkFacts) :=
  p.chunks.map fun facts => (p.frame, p.flow, facts)

def ChunkPass.told (x : ChunkPass) : FrameNumber × Option Flow × ChunkFacts :=
  (x.frame, x.flow, x.report.facts)

theorem told_passes (ctx : Context) (flow : Option Flow) (tables : Tables)
    (chunks : List RawChunk) :
    (ctx.passes flow tables chunks).map (·.told) =
      (ctx.takeAll tables chunks).2.map fun report => (ctx.stamp.frame, flow, report.facts) := by
  induction chunks generalizing tables with
  | nil => rfl
  | cons raw rest ih =>
    rw [Context.takeAll_cons, Context.passes, List.map_cons, List.map_cons, ih]
    rfl

/-- What is read of an analysis, if it is read chunk by chunk, is read of the chunks of a run. -/
theorem flatMap_visitAll {β : Type} {φ : PacketFacts → List β} {ψ : ChunkPass → List β}
    (each : ∀ (s : Session) (d : Datagram) (p : Packet), φ (s.take d p).2 =
      ((s.context d p).passes (s.assign d p).2 (s.opened d p) p.chunks).flatMap ψ)
    (run : List Datagram) :
    (s.visitAll run).1.analyses.flatMap φ = s.analyses.flatMap φ ++ (s.passes run).flatMap ψ := by
  induction run generalizing s with
  | nil => exact (List.append_nil _).symm
  | cons d rest ih =>
    have here : (s.visit d).1.analyses.flatMap φ =
        s.analyses.flatMap φ ++ (s.passesOf d).flatMap ψ := by
      have visited := visit_cases s d
      generalize s.visit d = outcome at visited ⊢
      cases visited with
      | repeated entry known =>
        rw [analyses, analyses_repeated known]
        simp [passesOf, known]
      | refused e new undecoded => simp [passesOf, new, undecoded]
      | taken p new decoded =>
        rw [analyses_take p new, List.flatMap_append, passesOf_taken new decoded,
          List.flatMap_singleton, each]
    rw [visitAll_cons, passes, List.flatMap_append, ← List.append_assoc, ← here]
    exact ih

theorem told_take (s : Session) (d : Datagram) (p : Packet) : (s.take d p).2.told =
    ((s.context d p).passes (s.assign d p).2 (s.opened d p) p.chunks).flatMap
      fun x => [x.told] := by
  rw [← List.map_eq_flatMap, told_passes, facts_take, PacketFacts.told, List.map_map]
  rfl

theorem told_visitAll (run : List Datagram) :
    (s.visitAll run).1.analyses.flatMap (·.told) =
      s.analyses.flatMap (·.told) ++ (s.passes run).map (·.told) := by
  rw [List.map_eq_flatMap]
  exact flatMap_visitAll told_take run

theorem flatMap_onceEach {β : Type} {φ : PacketFacts → List β} {ψ : ChunkPass → List β}
    (each : ∀ (s : Session) (d : Datagram) (p : Packet), φ (s.take d p).2 =
      ((s.context d p).passes (s.assign d p).2 (s.opened d p) p.chunks).flatMap ψ)
    (unseen : s.frames = []) (run : List Datagram) :
    ((s.passes run).flatMap ψ).Perm ((onceEach (s.visitAll run).2).flatMap φ) := by
  have whole := flatMap_visitAll (s := s) each run
  have blank : s.analyses = [] := by rw [analyses, unseen, List.map_nil]
  rw [blank, List.flatMap_nil, List.nil_append] at whole
  rw [← whole]
  exact ((onceEach_visitAll unseen run).flatMap_right _).symm

/-- The chunks of a run are those that its answers tell of, each frame counted once. -/
theorem told_onceEach (unseen : s.frames = []) (run : List Datagram) :
    ((s.passes run).map (·.told)).Perm
      ((onceEach (s.visitAll run).2).flatMap (·.told)) := by
  rw [List.map_eq_flatMap]
  exact flatMap_onceEach told_take unseen run

end SctpTrace.Session
