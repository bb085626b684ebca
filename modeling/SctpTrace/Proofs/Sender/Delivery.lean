import SctpTrace.Proofs.Sender.Reception

/-!
The traffic of one sender, in any order and with any losses and repetitions: every message whose
pieces all arrive is handed out once, as it was sent (`delivered_exactly_once`).
-/
namespace SctpTrace.Sender

open Session Reassembly Transmission

/-- The session after these frames brought exactly these pieces. -/
structure Receiving (config : Config) (path : Path) (sent : List DataUnit)
    (visited : List FrameNumber) (came : List Sighting) (s : Session) : Prop where
  config : s.config = config
  routed : Routed path s.associations
  unseen : ∀ frame, frame ∉ visited →
    Keyed.get? frame s.frames = none ∧ Keyed.get? frame s.associations.frames = none
  frames : ∀ c ∈ came, c.frame ∈ visited
  tables : ∃ half, s.tables.tracker.ensure onlyFlow = (⟨[half]⟩, 0) ∧
    Received path sent came half s.tables.store

variable {start : UInt32} {messages : List UserMessage} {path : Path} {config : Config}
  {visited : List FrameNumber} {came : List Sighting} {s : Session} {d : Datagram}

theorem received_start (sent : List DataUnit) :
    Received path sent [] (Half.new onlyFlow) .empty := by
  refine ⟨⟨?_, List.nodup_nil⟩, Half.founded_new _, rfl, fun _ => rfl, fun _ => ?_⟩
  · intro c absent
    cases absent
  · exact Store.reflects_fresh rfl

theorem receiving_start (config : Config) (path : Path) (sent : List DataUnit) :
    Receiving config path sent [] [] (Session.start config) := by
  refine ⟨rfl, .vacant [], fun _ _ => ⟨rfl, rfl⟩, ?_, Half.new onlyFlow, rfl, received_start sent⟩
  intro c absent
  cases absent

theorem ensure_only {half : Half} (flow : half.flow = onlyFlow) :
    Tracker.ensure ⟨[half]⟩ onlyFlow = (⟨[half]⟩, 0) := by
  have found : Tracker.find? ⟨[half]⟩ onlyFlow = some 0 := by
    simp [Tracker.find?, List.findIdx?_cons, flow]
  rw [Tracker.ensure, found]

theorem get?_put_unseen {α : Type} {frame other : FrameNumber} {value : α}
    {entries : Keyed FrameNumber α} (absent : Keyed.get? other entries = none)
    (different : other ≠ frame) : Keyed.get? other (Keyed.put frame value entries) = none := by
  rw [Keyed.get?_put, if_neg (Ne.symm different), absent]

theorem Receiving.visit (fits : (layout start messages).length < 4294967296)
    (tracks : config.tsn.enabled = true) (joins : config.reassembly.enabled = true)
    (tagged : path.verificationTag ≠ 0)
    (receiving : Receiving config path (layout start messages) visited came s)
    (carries : Carries path (layout start messages) d) (new : d.frame ∉ visited) :
    ∃ after facts, (s.visit d).2 = .ok facts ∧
      Receiving config path (layout start messages) (visited ++ [d.frame]) after (s.visit d).1 ∧
      Step start messages d.frame (units d) came after facts.data := by
  obtain ⟨p, decoded, sourcePort, destinationPort, tag, sends⟩ := carries.packet
  obtain ⟨unseen, unresolved⟩ := receiving.unseen d.frame new
  obtain ⟨half, ensured, received⟩ := receiving.tables
  obtain ⟨associations, resolved, routed, framed⟩ := receiving.routed.resolve tagged unresolved
  have carried : units d = unitsOf p.chunks := by rw [units, decoded]
  have observed : observation d p = path.observation := by
    rw [observation, observe_sends _ _ sends, sourcePort, destinationPort, tag, carries.source,
      carries.destination]
    rfl
  have assigned : s.assign d p = (associations, some onlyFlow) := by
    rw [Session.assign, observed, receiving.config, Config.indexing, tracks, Bool.or_true]
    exact resolved
  have sender : s.sender (some onlyFlow) = (⟨[half]⟩, some 0) := by
    rw [Session.sender, receiving.config, tracks, ensured]
    rfl
  have listening : Listening path ⟨s.config, p.header, d.stamp, some 0⟩ := by
    refine ⟨by rw [receiving.config, joins], rfl, fun u => ?_⟩
    rw [Context.messageKey, sourcePort, destinationPort, tag]
    rfl
  have once := carries.once
  rw [carried] at once
  -- The frame is new, so none of its units has come in it before.
  have apart : ∀ c ∈ came, c.frame = d.frame → ∀ u ∈ unitsOf p.chunks, c.unit.tsn ≠ u.tsn := by
    intro c there now
    have seen := receiving.frames c there
    rw [now] at seen
    exact absurd seen new
  obtain ⟨after, half', store, tables, receivedLast, step⟩ :=
    received.takeAll fits listening p.chunks sends once apart
  refine ⟨after, (s.take d p).2, ?_, ?_, ?_⟩
  · rw [Session.visit, unseen, decoded]
  · rw [Session.visit, unseen, decoded]
    simp only [Session.take, assigned, sender, tables]
    refine ⟨receiving.config, routed, ?_, ?_, half', ensure_only receivedLast.flow, receivedLast⟩
    · intro frame absent
      rw [List.mem_append, List.mem_singleton, not_or] at absent
      obtain ⟨unseenToo, unresolvedToo⟩ := receiving.unseen frame absent.1
      refine ⟨get?_put_unseen unseenToo absent.2, ?_⟩
      simp only [framed]
      exact get?_put_unseen unresolvedToo absent.2
    · intro c there
      rw [List.mem_append, List.mem_singleton]
      rcases step.kept c there with before | ⟨now, -⟩
      · exact Or.inl (receiving.frames c before)
      · exact Or.inr now
  · rw [carried, Session.take, assigned]
    simp only [sender]
    exact step

structure Journey (start : UInt32) (messages : List UserMessage) (run : List Datagram)
    (came after : List Sighting) (analyses : List PacketFacts) : Prop where
  carried : ∀ u, u ∈ after.map (·.unit) ↔ u ∈ came.map (·.unit) ∨ u ∈ run.flatMap units
  handed : (due start messages (after.map (·.unit))).Perm
    (due start messages (came.map (·.unit)) ++
      (analyses.flatMap PacketFacts.data).filterMap (·.delivery.payload?))

theorem Receiving.visitAll (fits : (layout start messages).length < 4294967296)
    (tracks : config.tsn.enabled = true) (joins : config.reassembly.enabled = true)
    (tagged : path.verificationTag ≠ 0) (run : List Datagram)
    (receiving : Receiving config path (layout start messages) visited came s)
    (honest : ∀ d ∈ run, Carries path (layout start messages) d)
    (distinct : (visited ++ run.map (·.frame)).Nodup) :
    ∃ after analyses, (s.visitAll run).2 = analyses.map .ok ∧
      Receiving config path (layout start messages) (visited ++ run.map (·.frame)) after
        (s.visitAll run).1 ∧
      Journey start messages run came after analyses := by
  induction run generalizing s visited came with
  | nil =>
    refine ⟨came, [], rfl, ?_, ?_, ?_⟩
    · rw [List.map_nil, List.append_nil]
      exact receiving
    · intro u
      simp
    · simp
  | cons d rest ih =>
    have assoc : visited ++ (d :: rest).map (·.frame) =
        (visited ++ [d.frame]) ++ rest.map (·.frame) := by simp
    rw [assoc] at distinct ⊢
    have new : d.frame ∉ visited := by
      intro seen
      rw [List.append_assoc, List.nodup_append] at distinct
      exact distinct.2.2 _ seen _ (by simp) rfl
    obtain ⟨middle, facts, answer, receivingThen, step⟩ :=
      receiving.visit fits tracks joins tagged (honest d List.mem_cons_self) new
    obtain ⟨after, analyses, answers, receivingLast, journey⟩ :=
      ih receivingThen (fun d there => honest d (List.mem_cons_of_mem _ there)) distinct
    refine ⟨after, facts :: analyses, ?_, receivingLast, ?_, ?_⟩
    · rw [visitAll_cons, answer, answers]
      rfl
    · intro u
      rw [journey.carried, step.carried, List.flatMap_cons, List.mem_append, or_assoc]
    · rw [List.flatMap_cons, List.filterMap_append, ← List.append_assoc]
      exact journey.handed.trans (step.handed.append_right _)

theorem due_nil : due start messages [] = [] := by
  rw [due, List.filter_eq_nil_iff.mpr, List.map_nil]
  intro p _
  obtain ⟨u, inside⟩ := exists_unit p
  rw [complete_iff]
  intro all
  cases all u inside

theorem due_congr {carried other : List DataUnit} (same : ∀ u, u ∈ carried ↔ u ∈ other) :
    due start messages carried = due start messages other := by
  have complete : Complete carried = Complete other := by
    funext p
    rw [Bool.eq_iff_iff, complete_iff, complete_iff]
    simp only [same]
  rw [due, due, complete]

/-- A datagram in the middle of a run: what is new in it is what did not come before. -/
theorem Receiving.visitAll_at (fits : (layout start messages).length < 4294967296)
    (tracks : config.tsn.enabled = true) (joins : config.reassembly.enabled = true)
    (tagged : path.verificationTag ≠ 0) {before rest : List Datagram} {analyses : List PacketFacts}
    (beginning : Receiving config path (layout start messages) [] [] s)
    (honest : ∀ e ∈ before ++ d :: rest, Carries path (layout start messages) e)
    (distinct : ((before ++ d :: rest).map (·.frame)).Nodup)
    (answers : (s.visitAll (before ++ d :: rest)).2 = analyses.map .ok) :
    ∃ facts, analyses[before.length]? = some facts ∧
      facts.data.map (·.tsn) = (units d).map (·.tsn) ∧
      ∀ f ∈ facts.data, Settled (f.tsn ∈ (before.flatMap units).map (·.tsn)) f.delivery := by
  rw [List.map_append, List.map_cons] at distinct
  have split := List.nodup_append.mp distinct
  obtain ⟨came, earlier, answersBefore, receivingThen, journeyBefore⟩ :=
    beginning.visitAll fits tracks joins tagged before
      (fun d there => honest d (List.mem_append_left _ there)) (by simpa using split.1)
  have new : d.frame ∉ [] ++ before.map (·.frame) := by
    rw [List.nil_append]
    intro seen
    exact split.2.2 _ seen _ List.mem_cons_self rfl
  obtain ⟨later, facts, answer, -, step⟩ :=
    receivingThen.visit fits tracks joins tagged (honest d (by simp)) new
  have seen : ∀ t, t ∈ came.map (·.unit.tsn) ↔ t ∈ (before.flatMap units).map (·.tsn) := by
    intro t
    have carried := journeyBefore.carried
    simp only [List.map_nil, List.not_mem_nil, false_or] at carried
    constructor
    · intro known
      obtain ⟨c, there, rfl⟩ := List.mem_map.mp known
      exact List.mem_map_of_mem ((carried c.unit).mp (List.mem_map_of_mem there))
    · intro known
      obtain ⟨u, there, rfl⟩ := List.mem_map.mp known
      obtain ⟨c, inside, same⟩ := List.mem_map.mp ((carried u).mpr there)
      exact List.mem_map.mpr ⟨c, inside, congrArg DataUnit.tsn same⟩
  refine ⟨facts, ?_, step.tsns, fun f there => (step.settled f there).congr (seen f.tsn)⟩
  have length : before.length = earlier.length := by
    simpa [length_visitAll] using congrArg List.length answersBefore
  rw [visitAll_append, visitAll_cons, answersBefore, answer] at answers
  have here := congrArg (·[before.length]?) answers
  simpa [length] using here.symm

/-- A sender's messages laid out on consecutive TSNs, its datagrams in any order, with any bundling,
losses and repetitions: the messages all of whose pieces arrive are handed out, each once and as it
was sent. Every other data chunk is kept for its message or recognised as sent before. -/
theorem delivered_exactly_once {config : Config} {session : Session}
    (fresh : Session.new config = .ok session) (tracks : config.tsn.enabled = true)
    (joins : config.reassembly.enabled = true) (path : Path) (tagged : path.verificationTag ≠ 0)
    (start : UInt32) (messages : List UserMessage)
    (fits : (layout start messages).length < 4294967296) (run : List Datagram)
    (distinct : (run.map (·.frame)).Nodup)
    (honest : ∀ d ∈ run, Carries path (layout start messages) d) :
    ∃ analyses : List PacketFacts, (session.visitAll run).2 = analyses.map .ok ∧
      ((analyses.flatMap PacketFacts.data).filterMap (·.delivery.payload?)).Perm
        (((place start messages).filter (Complete (run.flatMap units))).map
          fun p => p.message.bytes) ∧
      ∀ before d after, run = before ++ d :: after →
        ∃ facts, analyses[before.length]? = some facts ∧
          facts.data.map (·.tsn) = (units d).map (·.tsn) ∧
          ∀ f ∈ facts.data, Settled (f.tsn ∈ (before.flatMap units).map (·.tsn)) f.delivery := by
  obtain ⟨-, rfl⟩ := Session.new_eq_ok_iff.mp fresh
  have beginning := receiving_start config path (layout start messages)
  obtain ⟨after, analyses, answers, -, journey⟩ :=
    beginning.visitAll fits tracks joins tagged run honest (by simpa using distinct)
  refine ⟨analyses, answers, ?_, ?_⟩
  · have carried : ∀ u, u ∈ after.map (·.unit) ↔ u ∈ run.flatMap units := by
      intro u
      simpa using journey.carried u
    have handed := journey.handed
    rw [due_congr carried, List.map_nil, due_nil, List.nil_append] at handed
    exact handed.symm
  · rintro before d rest rfl
    exact beginning.visitAll_at fits tracks joins tagged honest distinct answers

def wrapPath : Path := ⟨2905, 2906, 7, .ofOctets 10 0 0 1, .ofOctets 10 0 0 2⟩

/-- Two pieces around the wrap, a message in one piece, and a message of which a piece is lost. All
have the same stream and sequence number. -/
def wrapMessages : List UserMessage :=
  [⟨1, 5, false, [72], [[105]]⟩, ⟨1, 5, false, [33], []⟩, ⟨1, 5, false, [63], [[64]]⟩]

/-- Frames that are out of order, with a piece sent twice. -/
def wrapContents : List (FrameNumber × List DataUnit) :=
  let sent := layout 4294967295 wrapMessages
  [(9, [sent[1]]), (8, [sent[3], sent[0]]), (7, [sent[1], sent[2]])]

def wrapRun : List Datagram := wrapContents.map fun c => written wrapPath ⟨c.1, ⟨0, 0⟩⟩ c.2

theorem delivered_around_the_wrap :
    Session.new {} = .ok (Session.start {}) ∧ (layout 4294967295 wrapMessages).length < 4294967296 ∧
      (wrapRun.map (·.frame)).Nodup ∧
      (∀ d ∈ wrapRun, Carries wrapPath (layout 4294967295 wrapMessages) d) ∧
      ∃ analyses : List PacketFacts, ((Session.start {}).visitAll wrapRun).2 = analyses.map .ok ∧
        ((analyses.flatMap PacketFacts.data).filterMap (·.delivery.payload?)).Perm
          [[72, 105], [33]] := by
  have fresh : Session.new {} = .ok (Session.start {}) := rfl
  have fits : (layout 4294967295 wrapMessages).length < 4294967296 := by decide
  have distinct : (wrapRun.map (·.frame)).Nodup := by decide
  have checked : ∀ c ∈ wrapContents, (∀ u ∈ c.2, u ∈ layout 4294967295 wrapMessages) ∧
      (∀ u ∈ c.2, u.payload.length ≤ 65519) ∧ (c.2.map (·.tsn)).Nodup := by decide
  have carries : ∀ c ∈ wrapContents,
      Carries wrapPath (layout 4294967295 wrapMessages) (written wrapPath ⟨c.1, ⟨0, 0⟩⟩ c.2) ∧
        units (written wrapPath ⟨c.1, ⟨0, 0⟩⟩ c.2) = c.2 := by
    intro c there
    obtain ⟨known, short, once⟩ := checked c there
    exact carries_written wrapPath ⟨c.1, ⟨0, 0⟩⟩ known short once
  have honest : ∀ d ∈ wrapRun, Carries wrapPath (layout 4294967295 wrapMessages) d := by
    intro d there
    obtain ⟨c, inside, rfl⟩ := List.mem_map.mp there
    exact (carries c inside).1
  have carried : wrapRun.flatMap units = wrapContents.flatMap (·.2) := by
    rw [wrapRun, List.flatMap_map]
    exact List.flatMap_congr fun c inside => (carries c inside).2
  obtain ⟨analyses, answers, handed, -⟩ :=
    delivered_exactly_once fresh rfl rfl wrapPath (by decide) 4294967295 wrapMessages fits wrapRun
      distinct honest
  rw [carried] at handed
  exact ⟨fresh, fits, distinct, honest, analyses, answers, handed⟩

end SctpTrace.Sender
