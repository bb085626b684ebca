import SctpTrace.Proofs.Sender.Channel
import SctpTrace.Proofs.Session.Run
import SctpTrace.Proofs.Transmission.FirstFrame

/-!
The tables while pieces of one layout come in. They reflect the pieces that came so far, each in its
first frame (`Received`); one more piece is handed out, kept or recognised as sent before, and a
message is handed out when its last piece comes (`Step`).
-/
namespace SctpTrace.Sender

open Session Reassembly Transmission

/-- The messages all of whose pieces were carried. -/
def due (start : UInt32) (messages : List UserMessage) (carried : List DataUnit) : List Bytes :=
  ((place start messages).filter (Complete carried)).map fun p => p.message.bytes

/-- Data that was not seen before is handed out or kept; data seen before is a retransmission. -/
def Settled (seen : Prop) : Delivery → Prop
  | .message _ => ¬ seen
  | .reassembled _ _ => ¬ seen
  | .awaitingFragments => ¬ seen
  | .retransmission => seen
  | _ => False

/-- The sender's half and the store after exactly these pieces came. -/
structure Received (path : Path) (sent : List DataUnit) (came : List Sighting) (half : Half)
    (store : Store) : Prop where
  pieces : Came sent came
  founded : half.Founded
  flow : half.flow = onlyFlow
  frames : ∀ t, half.firstFrame? t = (came.find? fun c => c.unit.tsn == t).map (·.frame)
  store : ∀ key, (store.held key).Reflects (fragmentsOf path key came)

structure Step (start : UInt32) (messages : List UserMessage) (frame : FrameNumber)
    (units : List DataUnit) (came after : List Sighting) (facts : List DataFacts) : Prop where
  kept : ∀ c ∈ after, c ∈ came ∨ (c.frame = frame ∧ c.unit ∈ units)
  carried : ∀ u, u ∈ after.map (·.unit) ↔ u ∈ came.map (·.unit) ∨ u ∈ units
  tsns : facts.map (·.tsn) = units.map (·.tsn)
  handed : (due start messages (after.map (·.unit))).Perm
    (due start messages (came.map (·.unit)) ++ facts.filterMap (·.delivery.payload?))
  settled : ∀ f ∈ facts, Settled (f.tsn ∈ came.map (·.unit.tsn)) f.delivery

structure Listening (path : Path) (ctx : Context) : Prop where
  joins : ctx.config.reassembly.enabled = true
  sender : ctx.sender = some 0
  key : ∀ u, ctx.messageKey u = path.key u

variable {start : UInt32} {messages : List UserMessage} {path : Path} {came : List Sighting}
  {half : Half} {store : Store} {ctx : Context} {p : Placed} {u : DataUnit} {frame : FrameNumber}

theorem due_append (fits : (layout start messages).length < 4294967296)
    {carried : List DataUnit} (member : p ∈ place start messages) (inside : u ∈ p.units)
    (new : u ∉ carried) :
    (due start messages (carried ++ [u])).Perm
      (due start messages carried ++
        (if Complete (carried ++ [u]) p then some p.message.bytes else none).toList) := by
  have missing : Complete carried p = false := by
    rw [Bool.eq_false_iff, Ne, complete_iff]
    intro all
    exact new (all u inside)
  have others : ∀ q ∈ place start messages, q ≠ p →
      Complete (carried ++ [u]) q = Complete carried q := by
    intro q there different
    rw [Bool.eq_iff_iff, complete_iff, complete_iff]
    constructor
    · intro all v insideV
      rcases List.mem_append.mp (all v insideV) with before | now
      · exact before
      · rw [List.mem_singleton.mp now] at insideV
        exact absurd (placed_inj fits there member insideV inside) different
    · intro all v insideV
      exact List.mem_append_left _ (all v insideV)
  have added := (filter_perm_append (nodup_place fits) member missing others).map
    fun p => p.message.bytes
  rw [List.map_append] at added
  cases complete : Complete (carried ++ [u]) p <;> simpa [due, complete] using added

theorem came_append (frame : FrameNumber) (from_sender : Came (layout start messages) came)
    (member : u ∈ layout start messages) (new : u.tsn ∉ came.map (·.unit.tsn)) :
    Came (layout start messages) (came ++ [⟨u, frame⟩]) := by
  constructor
  · intro c there
    rcases List.mem_append.mp there with before | now
    · exact from_sender.sent c before
    · rw [List.mem_singleton.mp now]
      exact member
  · rw [List.map_append, List.nodup_append]
    refine ⟨from_sender.once, List.nodup_singleton _, ?_⟩
    intro t before s now same
    rw [List.map_singleton, List.mem_singleton] at now
    rw [same, now] at before
    exact new before

theorem fragmentsOf_append (key : MessageKey) :
    fragmentsOf path key (came ++ [⟨u, frame⟩]) =
      fragmentsOf path key came ++
        if alone u = false ∧ path.key u = key then [Sighting.arrival ⟨u, frame⟩] else [] := by
  simp only [fragmentsOf, List.filter_append, List.map_append, List.filter_singleton]
  congr 1
  cases alone u <;> by_cases same : path.key u = key <;> simp [same, beq_eq_false_iff_ne.mpr]

theorem position_new (path : Path) (from_sender : Came (layout start messages) came)
    (member : u ∈ layout start messages) (new : u.tsn ∉ came.map (·.unit.tsn)) (key : MessageKey) :
    u.position ∉ (fragmentsOf path key came).map (·.position) := by
  intro known
  obtain ⟨a, there, same⟩ := List.mem_map.mp known
  obtain ⟨c, kept, rfl⟩ := List.mem_map.mp there
  have before := (List.mem_filter.mp kept).1
  apply new
  rw [← position_eq member, ← same]
  refine List.mem_map.mpr ⟨c, before, ?_⟩
  exact (position_eq (from_sender.sent c before)).symm

theorem deliver_alone (single : alone u = true) :
    ctx.deliver store u = ⟨store, .message u.payload, [], .zero⟩ := by
  have both : (u.beginning && u.ending) = true := single
  simp [Context.deliver, both]

theorem deliver_several (listening : Listening path ctx) (several : alone u = false)
    (new : (store.held (path.key u)).fragment? u.position = none) :
    (ctx.deliver store u).store =
        (store.arrive (path.key u) (Sighting.arrival ⟨u, ctx.stamp.frame⟩)).1 ∧
      (ctx.deliver store u).delivery =
        .ofAttempt (store.arrive (path.key u) (Sighting.arrival ⟨u, ctx.stamp.frame⟩)).2 := by
  have notBoth : (u.beginning && u.ending) = false := several
  have added : (store.add (path.key u) u.position u.beginning u.ending u.payload
      ctx.stamp.frame).2 = .added := by
    have first : (((store.fragments? (path.key u)).getD .empty).add u.position u.beginning u.ending
        u.payload ctx.stamp.frame).2 = .added := by
      rw [Fragments.add]
      have absent : ((store.fragments? (path.key u)).getD .empty).fragment? u.position = none := new
      rw [absent]
    exact first
  simp only [Context.deliver, notBoth, listening.joins, Bool.false_eq_true, ↓reduceIte,
    Context.deliverFragment, listening.key, added]
  exact ⟨rfl, rfl⟩

/- The whole run that an arrival completes is that of its own message, and it is completed exactly
   if every piece of the message came. -/
theorem payload_attempt (fits : (layout start messages).length < 4294967296)
    (from_sender : Came (layout start messages) (came ++ [⟨u, frame⟩]))
    (member : p ∈ place start messages) (inside : u ∈ p.units) (several : alone u = false)
    {attempt : Attempt}
    (answered : Fragments.Answered (fragmentsOf path (path.key u) (came ++ [⟨u, frame⟩]))
      (Sighting.arrival ⟨u, frame⟩) attempt) :
    (Delivery.ofAttempt attempt).payload? =
        (if Complete (came.map (·.unit) ++ [u]) p then some p.message.bytes else none) ∧
      Settled False (.ofAttempt attempt) := by
  have position := position_eq (mem_layout member inside)
  have whole_iff := whole_iff_complete path fits from_sender member inside several
  have data := data_contentOf path fits from_sender member inside several
  rw [List.map_append, List.map_singleton] at whole_iff data
  cases attempt with
  | completed m =>
    obtain ⟨whole, around, content, -⟩ := answered
    change m.run.covers u.position = true at around
    rw [position] at around
    have run := whole_run_eq fits from_sender member inside whole around
    rw [run] at whole content
    have complete := whole_iff.mp whole
    have bytes := data complete
    rw [← content] at bytes
    rw [complete]
    exact ⟨congrArg some bytes, not_false⟩
  | again m => cases answered
  | awaitingMore =>
    have incomplete : Complete (came.map (·.unit) ++ [u]) p = false := by
      rw [Bool.eq_false_iff]
      intro complete
      have outside := answered p.run (whole_iff.mpr complete)
      change p.run.covers u.position = false at outside
      rw [position, covers_run fits member inside] at outside
      cases outside
    rw [incomplete]
    exact ⟨rfl, not_false⟩
  | partOf completedIn => cases answered

theorem Received.deliver (fits : (layout start messages).length < 4294967296)
    (received : Received path (layout start messages) came half store)
    (listening : Listening path ctx) (member : p ∈ place start messages) (inside : u ∈ p.units)
    (new : u.tsn ∉ came.map (·.unit.tsn)) :
    (∀ key, ((ctx.deliver store u).store.held key).Reflects
        (fragmentsOf path key (came ++ [⟨u, ctx.stamp.frame⟩]))) ∧
      (ctx.deliver store u).delivery.payload? =
        (if Complete (came.map (·.unit) ++ [u]) p then some p.message.bytes
          else none) ∧
      Settled False (ctx.deliver store u).delivery := by
  have sent := mem_layout member inside
  have from_sender := came_append ctx.stamp.frame received.pieces sent new
  cases single : alone u with
  | true =>
    have complete : Complete (came.map (·.unit) ++ [u]) p = true := by
      rw [complete_iff, units_of_alone inside single]
      simp
    rw [deliver_alone single, complete, bytes_of_alone inside single]
    refine ⟨?_, rfl, not_false⟩
    intro key
    rw [fragmentsOf_append]
    simpa [single] using received.store key
  | false =>
    have fresh := position_new path received.pieces sent new (path.key u)
    obtain ⟨reflects, answered, -⟩ := Fragments.Reflects.arrive
      (a := Sighting.arrival ⟨u, ctx.stamp.frame⟩) (received.store (path.key u)) fresh
    have appended : fragmentsOf path (path.key u) came ++ [Sighting.arrival ⟨u, ctx.stamp.frame⟩] =
        fragmentsOf path (path.key u) (came ++ [⟨u, ctx.stamp.frame⟩]) := by
      rw [fragmentsOf_append]
      simp [single]
    rw [appended] at reflects answered
    have absent : (store.held (path.key u)).fragment? u.position = none :=
      (received.store (path.key u)).fragment?_eq_none
        (a := Sighting.arrival ⟨u, ctx.stamp.frame⟩) fresh
    obtain ⟨after, delivery⟩ := deliver_several listening single absent
    rw [after, delivery, Store.answer_arrive]
    refine ⟨?_, payload_attempt fits from_sender member inside single answered⟩
    intro key
    by_cases same : path.key u = key
    · subst same
      rw [Store.held_arrive]
      exact reflects
    · rw [Store.held_arrive_of_ne same, fragmentsOf_append]
      simpa [same] using received.store key

theorem transmit_eq (listening : Listening path ctx) (tsn : UInt32) :
    ctx.transmit ⟨[half]⟩ tsn =
      (⟨[(half.transmit tsn ctx.stamp ctx.config.tsn.maxRetransmissionsTracked).1]⟩,
        some (half.transmit tsn ctx.stamp ctx.config.tsn.maxRetransmissionsTracked).2) := by
  rw [Context.transmit, listening.sender]
  rfl

def factsOf (u : DataUnit) (outcome : Outcome) (delivery : Delivery) : DataFacts :=
  ⟨u.tsn, u.interleaved, u.stream, u.sequence, u.unordered, u.beginning, u.ending,
    u.payload.length, some outcome, delivery⟩

theorem takeData_first (store : Store) (listening : Listening path ctx)
    (first : (half.transmit u.tsn ctx.stamp
      ctx.config.tsn.maxRetransmissionsTracked).2.isRetransmission = false) :
    (ctx.takeData ⟨⟨[half]⟩, store⟩ u).1 =
        ⟨⟨[(half.transmit u.tsn ctx.stamp ctx.config.tsn.maxRetransmissionsTracked).1]⟩,
          (ctx.deliver store u).store⟩ ∧
      (ctx.takeData ⟨⟨[half]⟩, store⟩ u).2.facts =
        .data (factsOf u (half.transmit u.tsn ctx.stamp
          ctx.config.tsn.maxRetransmissionsTracked).2 (ctx.deliver store u).delivery) := by
  simp [Context.takeData, transmit_eq listening, first, factsOf]

theorem takeData_again (store : Store) (listening : Listening path ctx)
    (again : (half.transmit u.tsn ctx.stamp
      ctx.config.tsn.maxRetransmissionsTracked).2.isRetransmission = true) :
    (ctx.takeData ⟨⟨[half]⟩, store⟩ u).1 =
        ⟨⟨[(half.transmit u.tsn ctx.stamp ctx.config.tsn.maxRetransmissionsTracked).1]⟩, store⟩ ∧
      (ctx.takeData ⟨⟨[half]⟩, store⟩ u).2.facts =
        .data (factsOf u (half.transmit u.tsn ctx.stamp
          ctx.config.tsn.maxRetransmissionsTracked).2 .retransmission) := by
  simp [Context.takeData, transmit_eq listening, again, factsOf]

theorem find?_sighting_append (t : UInt32) :
    (came ++ [Sighting.mk u frame]).find? (fun c => c.unit.tsn == t) =
      (came.find? fun c => c.unit.tsn == t).or (if u.tsn = t then some ⟨u, frame⟩ else none) := by
  simp only [List.find?_append, List.find?_singleton, beq_iff_eq]

def Takes (path : Path) (start : UInt32) (messages : List UserMessage) (ctx : Context)
    (came : List Sighting) (units : List DataUnit) (tables : Tables) (facts : List DataFacts) :
    Prop :=
  ∃ after half store, tables = ⟨⟨[half]⟩, store⟩ ∧
    Received path (layout start messages) after half store ∧
    Step start messages ctx.stamp.frame units came after facts

theorem Received.takeData_new (fits : (layout start messages).length < 4294967296)
    (received : Received path (layout start messages) came half store)
    (listening : Listening path ctx) (member : u ∈ layout start messages)
    (new : u.tsn ∉ came.map (·.unit.tsn)) :
    ∃ facts, (ctx.takeData ⟨⟨[half]⟩, store⟩ u).2.facts = .data facts ∧
      Takes path start messages ctx came [u]
        (ctx.takeData ⟨⟨[half]⟩, store⟩ u).1 [facts] := by
  obtain ⟨p, placed, inside⟩ := exists_placed member
  obtain ⟨reflects, payload, settled⟩ := received.deliver fits listening placed inside new
  have absent : came.find? (fun c => c.unit.tsn == u.tsn) = none := find?_key_eq_none_iff.mpr new
  have unsent : half.firstFrame? u.tsn = none := by
    rw [received.frames, absent]
    rfl
  have first : (half.transmit u.tsn ctx.stamp
      ctx.config.tsn.maxRetransmissionsTracked).2.isRetransmission = false := by
    rw [Half.isRetransmission_transmit received.founded, unsent]
    rfl
  have notCarried : u ∉ came.map (·.unit) := by
    intro carried
    obtain ⟨c, there, rfl⟩ := List.mem_map.mp carried
    exact new (List.mem_map_of_mem there)
  obtain ⟨tables, facts⟩ := takeData_first store listening first
  refine ⟨_, facts, came ++ [⟨u, ctx.stamp.frame⟩], _, _, tables, ?_, ?_⟩
  · refine ⟨came_append _ received.pieces member new, Half.founded_transmit, ?_, ?_, reflects⟩
    · rw [Half.flow_transmit]
      exact received.flow
    · intro t
      rw [Half.firstFrame?_transmit received.founded, find?_sighting_append, unsent,
        received.frames t]
      by_cases same : t = u.tsn
      · subst same
        simp [absent]
      · simp [same, Ne.symm same]
  · refine ⟨?_, ?_, rfl, ?_, ?_⟩
    · intro c there
      rcases List.mem_append.mp there with before | now
      · exact Or.inl before
      · rw [List.mem_singleton.mp now]
        exact Or.inr ⟨rfl, List.mem_singleton_self u⟩
    · intro v
      rw [List.map_append, List.mem_append, List.map_singleton]
    · have handed := due_append fits placed inside notCarried
      rw [← payload] at handed
      cases out : (ctx.deliver store u).delivery.payload? <;> simpa [factsOf, out] using handed
    · intro f only
      rw [List.mem_singleton.mp only]
      simpa [factsOf, new] using settled

theorem Received.takeData_known
    (received : Received path (layout start messages) came half store)
    (listening : Listening path ctx) (member : u ∈ came.map (·.unit)) {c : Sighting}
    (there : c ∈ came) (same : c.unit.tsn = u.tsn) (other : c.frame ≠ ctx.stamp.frame) :
    ∃ facts, (ctx.takeData ⟨⟨[half]⟩, store⟩ u).2.facts = .data facts ∧
      Takes path start messages ctx came [u]
        (ctx.takeData ⟨⟨[half]⟩, store⟩ u).1 [facts] := by
  have found : came.find? (fun b => b.unit.tsn == u.tsn) = some c :=
    (find?_key_eq_some_iff received.pieces.once).mpr ⟨there, same⟩
  have sent : half.firstFrame? u.tsn = some c.frame := by
    rw [received.frames, found]
    rfl
  have again : (half.transmit u.tsn ctx.stamp
      ctx.config.tsn.maxRetransmissionsTracked).2.isRetransmission = true := by
    rw [Half.isRetransmission_transmit received.founded, sent]
    simp [other]
  obtain ⟨tables, facts⟩ := takeData_again store listening again
  refine ⟨_, facts, came, _, _, tables, ?_, ?_⟩
  · refine ⟨received.pieces, Half.founded_transmit, ?_, ?_, received.store⟩
    · rw [Half.flow_transmit]
      exact received.flow
    · intro t
      rw [Half.firstFrame?_transmit received.founded, received.frames t, sent]
      by_cases here : t = u.tsn
      · subst here
        simp [found]
      · simp [here]
  · refine ⟨fun c there => Or.inl there, ?_, rfl, ?_, ?_⟩
    · intro v
      rw [List.mem_singleton]
      constructor
      · exact Or.inl
      · rintro (before | rfl)
        · exact before
        · exact member
    · simp [factsOf, Delivery.payload?]
    · intro f only
      rw [List.mem_singleton.mp only]
      have seen : u.tsn ∈ came.map (·.unit.tsn) := by
        rw [← same]
        exact List.mem_map_of_mem there
      exact seen

theorem Settled.congr {seen other : Prop} {delivery : Delivery} (settled : Settled seen delivery)
    (same : seen ↔ other) : Settled other delivery := by
  rwa [← propext same]

theorem step_nil : Step start messages frame [] came came [] := by
  refine ⟨fun c there => Or.inl there, ?_, rfl, ?_, ?_⟩
  · intro u
    simp
  · simp
  · intro f absent
    cases absent

/-- Two stretches of one datagram make one, unless a TSN of the first comes again in the second. -/
theorem Step.append {units more : List DataUnit} {middle after : List Sighting}
    {facts others : List DataFacts} (first : Step start messages frame units came middle facts)
    (second : Step start messages frame more middle after others)
    (apart : ∀ u ∈ units, ∀ v ∈ more, u.tsn ≠ v.tsn) :
    Step start messages frame (units ++ more) came after (facts ++ others) := by
  have seen : ∀ f ∈ others, f.tsn ∈ middle.map (·.unit.tsn) ↔ f.tsn ∈ came.map (·.unit.tsn) := by
    intro f member
    have there : f.tsn ∈ more.map (·.tsn) := by
      rw [← second.tsns]
      exact List.mem_map_of_mem member
    obtain ⟨v, later, same⟩ := List.mem_map.mp there
    constructor
    · intro known
      obtain ⟨c, inside, at_tsn⟩ := List.mem_map.mp known
      rcases first.kept c inside with before | ⟨-, now⟩
      · exact List.mem_map.mpr ⟨c, before, at_tsn⟩
      · exact absurd (at_tsn.trans same.symm) (apart c.unit now v later)
    · intro known
      obtain ⟨c, before, at_tsn⟩ := List.mem_map.mp known
      have carried := (first.carried c.unit).mpr (Or.inl (List.mem_map_of_mem before))
      obtain ⟨b, inside, same⟩ := List.mem_map.mp carried
      exact List.mem_map.mpr ⟨b, inside, (congrArg DataUnit.tsn same).trans at_tsn⟩
  refine ⟨?_, ?_, ?_, ?_, ?_⟩
  · intro c there
    rcases second.kept c there with before | ⟨same, now⟩
    · rcases first.kept c before with earlier | ⟨same, now⟩
      · exact Or.inl earlier
      · exact Or.inr ⟨same, List.mem_append_left _ now⟩
    · exact Or.inr ⟨same, List.mem_append_right _ now⟩
  · intro u
    rw [second.carried, first.carried, List.mem_append, or_assoc]
  · rw [List.map_append, List.map_append, first.tsns, second.tsns]
  · rw [List.filterMap_append, ← List.append_assoc]
    exact second.handed.trans (first.handed.append_right _)
  · intro f member
    rcases List.mem_append.mp member with here | later
    · exact first.settled f here
    · exact (second.settled f later).congr (seen f later)

theorem Received.takeData (fits : (layout start messages).length < 4294967296)
    (received : Received path (layout start messages) came half store)
    (listening : Listening path ctx) (member : u ∈ layout start messages)
    (apart : ∀ c ∈ came, c.frame = ctx.stamp.frame → c.unit.tsn ≠ u.tsn) :
    ∃ facts, (ctx.takeData ⟨⟨[half]⟩, store⟩ u).2.facts = .data facts ∧
      Takes path start messages ctx came [u]
        (ctx.takeData ⟨⟨[half]⟩, store⟩ u).1 [facts] := by
  by_cases known : u.tsn ∈ came.map (·.unit.tsn)
  · obtain ⟨c, there, same⟩ := List.mem_map.mp known
    have unit : c.unit = u := unit_inj fits (received.pieces.sent c there) member same
    have carried : u ∈ came.map (·.unit) := by
      rw [← unit]
      exact List.mem_map_of_mem there
    exact received.takeData_known listening carried there same
      fun now => apart c there now same
  · exact received.takeData_new fits listening member known

theorem Received.takeAll (fits : (layout start messages).length < 4294967296)
    (listening : Listening path ctx) (chunks : List Wire.RawChunk)
    (received : Received path (layout start messages) came half store)
    (sends : Sends (layout start messages) chunks)
    (once : ((unitsOf chunks).map (·.tsn)).Nodup)
    (apart : ∀ c ∈ came, c.frame = ctx.stamp.frame → ∀ u ∈ unitsOf chunks, c.unit.tsn ≠ u.tsn) :
    Takes path start messages ctx came (unitsOf chunks)
      (ctx.takeAll ⟨⟨[half]⟩, store⟩ chunks).1
      (((ctx.takeAll ⟨⟨[half]⟩, store⟩ chunks).2.map (·.facts)).filterMap (·.data?)) := by
  induction chunks generalizing came half store with
  | nil => exact ⟨came, half, store, rfl, received, step_nil⟩
  | cons raw rest ih =>
    obtain ⟨c, decodes, member⟩ := sends raw List.mem_cons_self
    rw [unitsOf_cons decodes] at once apart ⊢
    obtain ⟨distinct, onceLater⟩ := List.nodup_cons.mp once
    obtain ⟨facts, reported, middle, half', store', tables, receivedThen, first⟩ :=
      received.takeData fits listening member
        fun b there now => apart b there now _ List.mem_cons_self
    have apartLater : ∀ b ∈ middle, b.frame = ctx.stamp.frame → ∀ u ∈ unitsOf rest,
        b.unit.tsn ≠ u.tsn := by
      intro b there now u later same
      rcases first.kept b there with before | ⟨-, this_one⟩
      · exact apart b before now u (List.mem_cons_of_mem _ later) same
      · rw [List.mem_singleton.mp this_one] at same
        exact distinct (List.mem_map.mpr ⟨u, later, same.symm⟩)
    obtain ⟨after, half'', store'', tablesLater, receivedLast, second⟩ :=
      ih receivedThen (fun raw there => sends raw (List.mem_cons_of_mem _ there)) onceLater
        apartLater
    have takes : ctx.takeRaw ⟨⟨[half]⟩, store⟩ raw =
        ctx.takeData ⟨⟨[half]⟩, store⟩ (.ofData c) := by
      rw [Context.takeRaw, decodes]
      rfl
    have apartHere : ∀ u ∈ [DataUnit.ofData c], ∀ v ∈ unitsOf rest, u.tsn ≠ v.tsn := by
      intro u here v later same
      rw [List.mem_singleton.mp here] at same
      exact distinct (List.mem_map.mpr ⟨v, later, same.symm⟩)
    rw [Context.takeAll_cons, takes, tables]
    refine ⟨after, half'', store'', tablesLater, receivedLast, ?_⟩
    simp only [List.map_cons, reported, List.filterMap_cons, ChunkFacts.data?]
    exact first.append second apartHere

end SctpTrace.Sender
