import SctpTrace.Session.Basic

/-!
A session over a whole capture: the datagrams are visited one after the other.
-/
namespace SctpTrace.Session

abbrev Answer := Except Wire.WireError PacketFacts

/-- A session that knows nothing yet: it is new, or it was reset. -/
def Fresh (s : Session) : Prop :=
  (∃ config, Session.new config = .ok s) ∨ ∃ earlier : Session, s = earlier.reset

def visitAll : Session → List Datagram → Session × List Answer
  | s, [] => (s, [])
  | s, d :: rest =>
    let (s, answer) := s.visit d
    let (s, answers) := visitAll s rest
    (s, answer :: answers)

variable {s : Session}

theorem Context.takeAll_cons (ctx : Context) (tables : Tables) (raw : Wire.RawChunk)
    (rest : List Wire.RawChunk) :
    ctx.takeAll tables (raw :: rest) =
      ((ctx.takeAll (ctx.takeRaw tables raw).1 rest).1,
        (ctx.takeRaw tables raw).2 :: (ctx.takeAll (ctx.takeRaw tables raw).1 rest).2) := rfl

def taken (s : Session) (d : Datagram) (p : Wire.Packet) : Tables × List ChunkReport :=
  let (tracker, sender) := s.sender (s.assign d p).2
  Context.takeAll ⟨s.config, p.header, d.stamp, sender⟩ { s.tables with tracker := tracker } p.chunks

theorem take_eq (d : Datagram) (p : Wire.Packet) :
    (s.take d p).1.config = s.config ∧ (s.take d p).1.associations = (s.assign d p).1 ∧
      (s.take d p).1.tables = (s.taken d p).1 ∧
      (s.take d p).1.frames = Keyed.put d.frame ⟨(s.take d p).2, false⟩ s.frames :=
  ⟨rfl, rfl, rfl, rfl⟩

theorem facts_take (d : Datagram) (p : Wire.Packet) :
    (s.take d p).2 =
      ⟨d.frame, p.header.sourcePort, p.header.destinationPort, p.header.verificationTag,
        Checksum.verify d.data d.reported s.config.checksum, (s.assign d p).2,
        (s.taken d p).2.map (·.facts),
        packetFindings d p ++ (s.taken d p).2.flatMap (·.findings)⟩ := rfl

theorem visitAll_cons (d : Datagram) (rest : List Datagram) :
    s.visitAll (d :: rest) =
      (((s.visit d).1.visitAll rest).1, (s.visit d).2 :: ((s.visit d).1.visitAll rest).2) := rfl

theorem length_visitAll (run : List Datagram) : (s.visitAll run).2.length = run.length := by
  induction run generalizing s with
  | nil => rfl
  | cons d rest ih => simp [visitAll_cons, ih]

theorem visitAll_append (before after : List Datagram) :
    s.visitAll (before ++ after) =
      (((s.visitAll before).1.visitAll after).1,
        (s.visitAll before).2 ++ ((s.visitAll before).1.visitAll after).2) := by
  induction before generalizing s with
  | nil => rfl
  | cons d rest ih => simp [visitAll_cons, ih]

theorem new_eq_ok_iff {config : Config} : new config = .ok s ↔ config.Valid ∧ s = start config := by
  unfold new Config.checked
  cases problem : config.problem? with
  | none =>
    have valid := Config.problem?_eq_none_iff.mp problem
    simp only [Except.map, Except.ok.injEq, valid, true_and]
    exact eq_comm
  | some e =>
    have invalid : ¬ config.Valid := by
      rw [← Config.problem?_eq_none_iff, problem]
      simp
    simp [Except.map, invalid]

theorem Fresh.blank (fresh : s.Fresh) :
    s.associations = .empty ∧ s.tables = ⟨.empty, .empty⟩ ∧ s.frames = [] := by
  rcases fresh with ⟨config, made⟩ | ⟨earlier, rfl⟩
  · obtain ⟨-, rfl⟩ := new_eq_ok_iff.mp made
    exact ⟨rfl, rfl, rfl⟩
  · exact ⟨rfl, rfl, rfl⟩

theorem Fresh.unseen (fresh : s.Fresh) : s.frames = [] ∧ s.tables = ⟨.empty, .empty⟩ :=
  ⟨fresh.blank.2.2, fresh.blank.2.1⟩

end SctpTrace.Session
