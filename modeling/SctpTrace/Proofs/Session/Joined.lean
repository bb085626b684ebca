import SctpTrace.Proofs.Isolation.Run
import SctpTrace.Proofs.Session.Resolved
import SctpTrace.Proofs.Session.Returned

/-!
Which chunks a reassembled message was joined from. At each of its positions it is the chunk that
stored something there first, and what these chunks have in common is the key, which holds neither
the hosts nor the kind of the data. They are of one flow if only one flow has the ports and the tag
of the key (`joined_by_key`), and otherwise they may be of two (`joined_across_flows`).
-/
namespace SctpTrace

open Wire Reassembly Serial

/-- The flow has the ports of the key, and the tag of the key if the key has one. -/
def AssociationTable.Serves (t : AssociationTable) (f : Flow) (key : MessageKey) : Prop :=
  ∃ a : Association, t.associations[f.index]? = some a ∧
    (a.key f.direction).sourcePort = key.sourcePort ∧
    (a.key f.direction).destinationPort = key.destinationPort ∧
    (key.verificationTag ≠ 0 → (a.key f.direction).tags.destination = key.verificationTag)

def AssociationTable.Unshared (t : AssociationTable) (key : MessageKey) : Prop :=
  ∀ f g, t.Serves f key → t.Serves g key → f = g

/-- On port pairs of their own, and each with two ports, associations share no keys. -/
theorem AssociationTable.unshared_of_ports {t : AssociationTable}
    (distinct : (t.associations.map (·.ports)).Nodup)
    (apart : ∀ a ∈ t.associations, a.sourcePort ≠ a.destinationPort) (key : MessageKey) :
    t.Unshared key := by
  rintro ⟨i, d⟩ ⟨j, e⟩ ⟨a, here, source, destination, -⟩ ⟨b, there, sourceToo, destinationToo, -⟩
  have ports : a.ports = b.ports := by
    rw [← a.ports_key d, ← b.ports_key e, PairKey.ports, PairKey.ports, source, destination,
      sourceToo, destinationToo]
  have place : i = j := place_eq_of_key distinct here there ports
  subst place
  rw [here] at there
  cases there
  have differ := apart a (List.mem_of_getElem? here)
  have same := source.trans sourceToo.symm
  cases d <;> cases e
  · rfl
  · exact absurd same differ
  · exact absurd same.symm differ
  · rfl

namespace Session

/-- The tag in the common header is that of the destination; no chunk reflects it. -/
def Plain (d : Datagram) : Prop :=
  ∀ p, Packet.decode d.data = .ok p →
    (observation d p).destinationTag = p.header.verificationTag

instance (d : Datagram) : Decidable (Plain d) :=
  match decoded : Packet.decode d.data with
  | .error _ => isTrue fun p found => by simp [decoded] at found
  | .ok q =>
    decidable_of_iff ((observation d q).destinationTag = q.header.verificationTag)
      ⟨fun own p found => by cases decoded.symm.trans found; exact own, fun all => all q decoded⟩

namespace ChunkPass

/-- The fragment that the chunk stores where nothing was stored. -/
def supply? (x : ChunkPass) (key : MessageKey) : Option Arrival :=
  x.unit?.bind fun u =>
    if x.fragment? = some (key, u.position) ∧
        ((x.before.store.held key).fragment? u.position).isNone = true ∧
        ((x.after.store.held key).fragment? u.position).isSome = true then
      some (u.arrival x.frame)
    else none

def payload (x : ChunkPass) : Bytes := (x.unit?.map (·.payload)).getD []

def interleaved? (x : ChunkPass) : Option Bool := x.unit?.map (·.interleaved)

end ChunkPass

def supplies (chunks : List ChunkPass) (key : MessageKey) : List Arrival :=
  chunks.filterMap fun x => x.supply? key

def joined (chunks : List ChunkPass) (key : MessageKey) (m : Message) : List ChunkPass :=
  (arc m.first m.last).filterMap fun t =>
    chunks.find? fun x => (x.supply? key).any fun a => a.position == t

/-- A message with the chunks that it was joined from: one for each position. -/
structure Joined (chunks : List ChunkPass) (key : MessageKey) (m : Message) : Prop where
  positions : (joined chunks key m).map (·.fragment?) =
    (arc m.first m.last).map fun t => some (key, t)
  data : m.data = (joined chunks key m).flatMap (·.payload)
  frames : m.frames = withoutRepeats ((joined chunks key m).map (·.frame))

variable {s : Session} {x : ChunkPass} {chunks : List ChunkPass} {key : MessageKey} {m : Message}
  {t : UInt32} {a : Arrival} {u : DataUnit} {run : List Datagram}

theorem ChunkPass.supply?_eq_some_iff : x.supply? key = some a ↔
    ∃ u, x.unit? = some u ∧ x.fragment? = some (key, u.position) ∧
      ((x.before.store.held key).fragment? u.position).isNone = true ∧
      ((x.after.store.held key).fragment? u.position).isSome = true ∧ u.arrival x.frame = a := by
  rw [supply?, Option.bind_eq_some_iff]
  refine exists_congr fun u => and_congr_right fun _ => ?_
  split
  · rename_i stores
    simp [stores]
  · rename_i not
    simp only [reduceCtorEq, false_iff]
    exact fun stores => not ⟨stores.1, stores.2.1, stores.2.2.1⟩

theorem ChunkPass.supply?_eq_none (same : x.after.store.held key = x.before.store.held key) :
    x.supply? key = none := by
  rw [Option.eq_none_iff_forall_not_mem]
  intro a supplied
  obtain ⟨u, -, -, absent, present, -⟩ := supply?_eq_some_iff.mp supplied
  rw [same] at present
  cases here : (x.before.store.held key).fragment? u.position <;> simp_all

theorem supplies_append (chunks : List ChunkPass) (x : ChunkPass) (key : MessageKey) :
    supplies (chunks ++ [x]) key = supplies chunks key ++ (x.supply? key).toList := by
  rw [supplies, List.filterMap_append]
  cases supplied : x.supply? key <;> simp [supplies, supplied]

theorem reflects_step
    (accounts : ∀ key, Accounts chunks key (x.before.store.held key))
    (reflects : ∀ key, (x.before.store.held key).Reflects (supplies chunks key)) :
    ∀ key, (x.after.store.held key).Reflects (supplies (chunks ++ [x]) key) := by
  intro key
  rw [supplies_append]
  have idle : x.after.store.held key = x.before.store.held key →
      (x.after.store.held key).Reflects (supplies chunks key ++ (x.supply? key).toList) := by
    intro same
    rw [ChunkPass.supply?_eq_none same, same, Option.toList_none, List.append_nil]
    exact reflects key
  rcases x.brings_cases with ⟨same, -⟩ | ⟨u, unit, brings⟩
  · exact idle (by rw [same])
  have after : x.after.store.held key = if x.ctx.messageKey u = key then
      ((x.before.store.held (x.ctx.messageKey u)).receive (u.arrival x.frame)).1
        else x.before.store.held key := by
    rw [brings.store, Store.held_receive]
  by_cases own : x.ctx.messageKey u = key
  · subst own
    rw [if_pos rfl] at after
    by_cases known : (u.arrival x.frame).position ∈
        (supplies chunks (x.ctx.messageKey u)).map (·.position)
    · exact idle (after.trans ((reflects _).receive_known (accounts _).spent known))
    · have received := (reflects _).receive known
      rw [← after] at received
      have supplied : x.supply? (x.ctx.messageKey u) = some (u.arrival x.frame) := by
        refine ChunkPass.supply?_eq_some_iff.mpr ⟨u, unit, brings.fragment, ?_, ?_, rfl⟩
        · rw [Option.isNone_iff_eq_none]
          exact (reflects _).fragment?_eq_none known
        · have here : held? (supplies chunks (x.ctx.messageKey u) ++ [u.arrival x.frame])
              (u.arrival x.frame).position = some (u.arrival x.frame) := by
            rw [held?_append, held?_eq_none_iff.mpr known, Option.none_or, if_pos rfl]
          rw [received.held]
          exact congrArg (fun found => (Option.map _ found).isSome) here
      rw [supplied]
      exact received
  · rw [if_neg own] at after
    exact idle after

theorem reflects_passes (blank : s.tables = ⟨.empty, .empty⟩) (run : List Datagram) :
    ∀ key, ((s.visitAll run).1.tables.store.held key).Reflects (supplies (s.passes run) key) := by
  have kept := passes_induction (s := s)
    (P := fun l tables => (∀ key, Accounts l key (tables.store.held key)) ∧
      ∀ key, (tables.store.held key).Reflects (supplies l key)) ?_ ?_ ?_ run ?_
  · exact kept.2
  · exact fun _ _ _ kept => kept
  · exact fun _ _ _ kept => ⟨Accounts.step kept.1, reflects_step kept.1 kept.2⟩
  · rw [blank]
    exact Transmission.Tracker.sound_empty
  · rw [blank]
    exact ⟨accounts_empty, fun _ => Fragments.reflects_empty⟩

theorem find?_supplier (chunks : List ChunkPass) (key : MessageKey) (t : UInt32) :
    held? (supplies chunks key) t =
      (chunks.find? fun x => (x.supply? key).any fun a => a.position == t).bind
        fun x => x.supply? key := by
  rw [held?, supplies, List.find?_filterMap]

theorem ChunkPass.told_of_supply? (supplied : x.supply? key = some a) :
    x.fragment? = some (key, a.position) ∧ x.payload = a.payload ∧ x.frame = a.frame := by
  obtain ⟨u, unit, fragment, -, -, rfl⟩ := supply?_eq_some_iff.mp supplied
  exact ⟨fragment, by rw [payload, unit]; rfl, rfl⟩

theorem mem_joined {y : ChunkPass} (there : y ∈ joined chunks key m) :
    y ∈ chunks ∧ ∃ a, y.supply? key = some a := by
  obtain ⟨t, -, found⟩ := List.mem_filterMap.mp there
  have hit := List.find?_some found
  simp only [Option.any_eq_true] at hit
  obtain ⟨a, supplied, -⟩ := hit
  exact ⟨List.mem_of_find?_eq_some found, a, supplied⟩

theorem joined_of_reflects {fragments : Fragments}
    (reflects : fragments.Reflects (supplies chunks key)) (member : m ∈ fragments.completed) :
    Joined chunks key m := by
  obtain ⟨whole, content⟩ := reflects.sound m member
  have parts : (arc m.first m.last).filterMap (held? (supplies chunks key)) =
      (joined chunks key m).filterMap fun y => y.supply? key := by
    rw [joined, List.filterMap_filterMap]
    exact List.filterMap_congr fun t _ => find?_supplier chunks key t
  -- each chunk supplies one fragment, and what is read of the fragment can be read of the chunk
  have read : ∀ {β : Type} (φ : Arrival → β) (ψ : ChunkPass → β),
      (∀ y a, y.supply? key = some a → φ a = ψ y) →
        ((arc m.first m.last).filterMap (held? (supplies chunks key))).map φ =
          (joined chunks key m).map ψ := by
    intro β φ ψ agree
    rw [parts, List.map_filterMap, ← List.filterMap_eq_map]
    apply List.filterMap_congr
    intro y there
    obtain ⟨-, a, supplied⟩ := mem_joined there
    rw [supplied, Option.map_some, agree y a supplied]
    rfl
  refine ⟨?_, ?_, ?_⟩
  · rw [← read (fun a => some (key, a.position)) (·.fragment?) fun y a supplied =>
      (ChunkPass.told_of_supply? supplied).1.symm, List.map_filterMap, ← List.filterMap_eq_map]
    apply List.filterMap_congr
    intro t inside
    obtain ⟨a, here, -⟩ := edgesOf_of_held? (whole.edges_at (Run.mem_arc_iff.mp inside))
    have place : a.position = t := by simpa using List.find?_some here
    rw [here, Option.map_some, place]
    rfl
  · have data := congrArg Content.data content
    rw [List.flatMap_def, ← read (·.payload) (·.payload) fun y a supplied =>
      (ChunkPass.told_of_supply? supplied).2.1.symm]
    rw [← List.flatMap_def]
    exact data
  · have frames := congrArg Content.frames content
    rw [← read (·.frame) (·.frame) fun y a supplied =>
      (ChunkPass.told_of_supply? supplied).2.2.symm]
    exact frames

/- The flow and the kind of a fragment. -/

theorem mem_withoutRepeats {frame : FrameNumber} {frames : List FrameNumber} :
    frame ∈ withoutRepeats frames ↔ frame ∈ frames := by
  induction frames with
  | nil => rfl
  | cons first rest ih =>
    rw [List.mem_cons, ← ih, withoutRepeats]
    cases withoutRepeats rest with
    | nil => simp
    | cons second tail =>
      simp only
      split
      · rename_i same
        simp [same]
      · simp

theorem ChunkPass.unit_of_fragment? (fragment : x.fragment? = some (key, t)) :
    ∃ u, x.unit? = some u ∧ x.ctx.messageKey u = key := by
  obtain ⟨u, unit, here⟩ := Option.bind_eq_some_iff.mp fragment
  split at here
  · cases here
  · cases here
    exact ⟨u, unit, rfl⟩

theorem ChunkPass.Resolved.serves {table : AssociationTable} {d : Datagram} {p : Packet}
    (resolved : x.Resolved table d p) (plain : Plain d) (fragment : x.fragment? = some (key, t)) :
    ∃ f, x.flow = some f ∧ table.Serves f key := by
  obtain ⟨u, -, rfl⟩ := x.unit_of_fragment? fragment
  obtain ⟨f, a, own, here, covers⟩ := resolved.association
  obtain ⟨source, destination⟩ := Isolation.ports_of_observation d p
  have tag := plain p resolved.decoded
  refine ⟨f, own, a, here, ?_, ?_, ?_⟩
  · rw [covers.sourcePort, source, Context.messageKey, resolved.header]
  · rw [covers.destinationPort, destination, Context.messageKey, resolved.header]
  · intro tagged
    rw [Context.messageKey, resolved.header, ← tag] at tagged ⊢
    exact covers.destinationTag tagged

theorem ChunkPass.sequence_lt (unit : x.unit? = some u) (data : u.interleaved = false) :
    u.sequence.toNat < 65536 := by
  obtain ⟨chunk, -, isUnit⟩ := Option.bind_eq_some_iff.mp unit
  cases chunk with
  | data c =>
    cases isUnit
    exact c.sequence.toNat_lt
  | interleaved c =>
    cases isUnit
    cases data
  | _ => cases isUnit

theorem fragment_of_joined {y : ChunkPass} (part : y ∈ joined chunks key m) :
    ∃ u, y.unit? = some u ∧ y.ctx.messageKey u = key := by
  obtain ⟨-, a, supplied⟩ := mem_joined part
  exact y.unit_of_fragment? (ChunkPass.told_of_supply? supplied).1

theorem interleaved_of_joined {y : ChunkPass} (long : 65536 ≤ key.sequence.toNat)
    (part : y ∈ joined chunks key m) : y.interleaved? = some true := by
  obtain ⟨u, unit, same⟩ := fragment_of_joined part
  rw [ChunkPass.interleaved?, unit, Option.map_some, Option.some_inj]
  by_contra data
  have short := ChunkPass.sequence_lt unit (Bool.eq_false_iff.mpr data)
  rw [← same] at long
  exact absurd long (Nat.not_le.mpr short)

theorem Indexed.serves_of_passes (indexed : s.Indexed) {frames : List FrameNumber}
    (plain : ∀ d ∈ run, d.frame ∈ frames → Plain d) (there : x ∈ s.passes run)
    (fragment : x.fragment? = some (key, t)) (inside : x.frame ∈ frames) :
    ∃ f, x.flow = some f ∧ (s.visitAll run).1.associations.Serves f key := by
  obtain ⟨d, given, p, resolved⟩ := indexed.resolved_passes run x there
  have frame : x.frame = d.frame := congrArg Stamp.frame resolved.stamp
  exact resolved.serves (plain d given (frame ▸ inside)) fragment

theorem Indexed.flow_of_joined (indexed : s.Indexed)
    (alone : (s.visitAll run).1.associations.Unshared key)
    (plain : ∀ d ∈ run, d.frame ∈ x.frame :: m.frames → Plain d) (there : x ∈ s.passes run)
    (fragment : x.fragment? = some (key, t)) (whole : Joined (s.passes run) key m) {y : ChunkPass}
    (part : y ∈ joined (s.passes run) key m) : y.flow = x.flow := by
  obtain ⟨f, own, here⟩ := indexed.serves_of_passes plain there fragment List.mem_cons_self
  obtain ⟨place, a, supplied⟩ := mem_joined part
  have inside : y.frame ∈ m.frames := by
    rw [whole.frames, mem_withoutRepeats]
    exact List.mem_map_of_mem part
  obtain ⟨g, flow, hereToo⟩ := indexed.serves_of_passes plain place
    (ChunkPass.told_of_supply? supplied).1 (List.mem_cons_of_mem _ inside)
  rw [flow, own, alone g f hereToo here]

/-- Fragments are joined by their key, into messages that are the payloads and the frames of the
chunks that supplied their positions. If one flow alone serves the key, all of them came in the flow
of the packet that is answered with the message. If further this flow carries one kind of data only,
all of them are of this kind; they are I-DATA in any case if the sequence number takes more than 16
bits. -/
theorem joined_by_key {session : Session} (fresh : session.Fresh)
    (indexing : session.config.indexing = true) (run : List Datagram) :
    let chunks := session.passes run
    let final := (session.visitAll run).1
    (chunks.map (·.told)).Perm ((onceEach (session.visitAll run).2).flatMap (·.told)) ∧
      ∀ x ∈ chunks, ∀ data frames, x.delivery? = some (.reassembled data frames) →
        ∃ key, ∃ m ∈ (final.tables.store.held key).completed,
          x.returns key m = true ∧ m.data = data ∧ m.frames = frames ∧ Joined chunks key m ∧
          (65536 ≤ key.sequence.toNat →
            ∀ y ∈ joined chunks key m, y.interleaved? = some true) ∧
          (final.associations.Unshared key →
            (∀ d ∈ run, d.frame ∈ x.frame :: frames → Plain d) →
              (∀ y ∈ joined chunks key m, y.flow = x.flow) ∧
              ∀ kind, (∀ y ∈ chunks, y.flow = x.flow → y.interleaved? ≠ some !kind) →
                ∀ y ∈ joined chunks key m, y.interleaved? = some kind) := by
  intro chunks final
  obtain ⟨unseen, blank⟩ := fresh.unseen
  refine ⟨told_onceEach unseen run, ?_⟩
  intro x there data frames told
  rcases x.fragment_cases with ⟨-, silent⟩ | ⟨key, a, brings⟩
  · exact absurd told (silent data frames)
  obtain ⟨m, member, returns⟩ :=
    (accounts_passes blank run key).answers.held x there a.position data frames brings.fragment told
  obtain ⟨t, fragment, -, answered⟩ := ChunkPass.returns_iff.mp returns
  rw [told, Option.some_inj, Delivery.reassembled.injEq] at answered
  have whole : Joined chunks key m := joined_of_reflects (reflects_passes blank run key) member
  refine ⟨key, m, member, returns, answered.1.symm, answered.2.symm, whole,
    fun long y part => interleaved_of_joined long part, ?_⟩
  intro alone plain
  rw [answered.2] at plain
  have flows : ∀ y ∈ joined chunks key m, y.flow = x.flow := fun y part =>
    (fresh.indexed indexing).flow_of_joined alone plain there fragment whole part
  refine ⟨flows, ?_⟩
  intro kind only y part
  obtain ⟨u, unit, -⟩ := fragment_of_joined part
  have known := only y (mem_joined part).1 (flows y part)
  rw [ChunkPass.interleaved?, unit, Option.map_some] at known ⊢
  cases kind <;> cases isI : u.interleaved <;> simp_all

def twoFragments : List Datagram :=
  [between 1 2905 2906 7 (DataChunk.write ⟨10, 1, 5, 0, [65], false, true, false⟩),
    between 2 3000 2906 7 (DataChunk.write ⟨10, 1, 5, 0, [66], false, true, true⟩),
    between 3 2905 2906 7 (DataChunk.write ⟨11, 1, 5, 0, [67], false, false, true⟩)]

theorem joined_by_key_in_one_flow :
    let chunks := (start {}).passes twoFragments
    (start {}).Fresh ∧ (start {}).config.indexing = true ∧
      ∃ x ∈ chunks, x.delivery? = some (.reassembled [65, 67] [1, 3]) ∧
        ∃ key m, Joined chunks key m ∧ m.data = [65, 67] ∧
          ∀ y ∈ joined chunks key m, y.flow = x.flow ∧ y.interleaved? = some false := by
  intro chunks
  have fresh : (start {}).Fresh := Or.inl ⟨{}, rfl⟩
  have completing : ∃ x ∈ chunks, x.delivery? = some (.reassembled [65, 67] [1, 3]) := by
    decide +kernel
  have kinds : ∀ y ∈ chunks, y.interleaved? ≠ some true := by decide +kernel
  have plain : ∀ d ∈ twoFragments, Plain d := by decide +kernel
  have unshared := AssociationTable.unshared_of_ports
    (t := ((start {}).visitAll twoFragments).1.associations) (by decide +kernel) (by decide +kernel)
  obtain ⟨x, there, told⟩ := completing
  obtain ⟨-, parts⟩ := joined_by_key fresh rfl twoFragments
  obtain ⟨key, m, -, -, data, -, whole, -, alike⟩ := parts x there _ _ told
  obtain ⟨flows, sameKind⟩ := alike (unshared key) fun d given _ => plain d given
  exact ⟨fresh, rfl, x, there, told, key, m, whole, data, fun y part =>
    ⟨flows y part, sameKind false (fun y place _ => kinds y place) y part⟩⟩

/-- Two hosts with one port, and a third one that gave both of them the same tag. -/
def oneTagForTwo : List Datagram :=
  [between 1 2905 2906 7 (DataChunk.write ⟨10, 1, 5, 0, [65], false, true, false⟩),
    { between 2 2905 2906 7 (DataChunk.write ⟨11, 1, 5, 0, [66], false, false, true⟩) with
      source := .ofOctets 10 0 0 3 }]

def twoKinds : List Datagram :=
  [between 1 2905 2906 7 (InterleavedChunk.write ⟨10, 1, 5, 0, [65], false, true, false, false⟩),
    between 2 2905 2906 7 (DataChunk.write ⟨1, 1, 5, 0, [66], false, false, true⟩)]

/-- Fragments of two flows are joined, and fragments of both kinds. -/
theorem joined_across_flows :
    (¬ ∀ session : Session, session.Fresh → session.config.indexing = true →
      session.config.reassembly.enabled = true → ∀ run, ∀ x ∈ session.passes run, ∀ key,
        ∀ m ∈ ((session.visitAll run).1.tables.store.held key).completed, x.returns key m = true →
          ∀ y ∈ joined (session.passes run) key m, y.flow = x.flow) ∧
    ¬ ∀ session : Session, session.Fresh → session.config.indexing = true →
      session.config.reassembly.enabled = true → ∀ run, ∀ x ∈ session.passes run, ∀ key,
        ∀ m ∈ ((session.visitAll run).1.tables.store.held key).completed, x.returns key m = true →
          ∀ y ∈ joined (session.passes run) key m, y.interleaved? = x.interleaved? := by
  have fresh : (start {}).Fresh := Or.inl ⟨{}, rfl⟩
  let key : MessageKey := ⟨2905, 2906, 7, 1, 5, false⟩
  constructor
  · intro same
    let m : Message := ⟨10, 11, 2, [1, 2], [65, 66]⟩
    have apart : ∃ x ∈ (start {}).passes oneTagForTwo, x.returns key m = true ∧
        ∃ y ∈ joined ((start {}).passes oneTagForTwo) key m, y.flow ≠ x.flow := by decide +kernel
    obtain ⟨x, there, returns, y, part, differ⟩ := apart
    have completed := same _ fresh rfl rfl oneTagForTwo x there key m (by decide +kernel) returns
    exact differ (completed y part)
  · intro same
    let m : Message := ⟨0, 1, 2, [1, 2], [65, 66]⟩
    have apart : ∃ x ∈ (start {}).passes twoKinds, x.returns key m = true ∧
        ∃ y ∈ joined ((start {}).passes twoKinds) key m, y.interleaved? ≠ x.interleaved? := by
      decide +kernel
    obtain ⟨x, there, returns, y, part, differ⟩ := apart
    have completed := same _ fresh rfl rfl twoKinds x there key m (by decide +kernel) returns
    exact differ (completed y part)

end Session

end SctpTrace
