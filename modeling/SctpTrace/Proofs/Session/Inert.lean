import SctpTrace.Proofs.Isolation.Run
import SctpTrace.Proofs.Session.Passes
import SctpTrace.Proofs.Wire.Tiling

/-!
Chunks that change nothing. Chunks that cannot be decoded, chunks of other types, and ABORT and
SHUTDOWN-COMPLETE without the T bit leave no trace but the findings about the form of a datagram:
two datagrams with the same chunks otherwise are analyzed alike (`visit_of_alike`).
-/
namespace SctpTrace.Wire

def Chunk.inert : Chunk → Bool
  | abort reflected => !reflected
  | shutdownComplete reflected => !reflected
  | other _ _ => true
  | _ => false

def RawChunk.live? (raw : RawChunk) : Option Chunk := raw.decode.toOption.filter fun c => !c.inert

end SctpTrace.Wire

namespace SctpTrace.Session

open Wire

def remaining (chunks : List RawChunk) : List Chunk := chunks.filterMap (·.live?)

def kept (chunks : List RawChunk) (facts : List ChunkFacts) : List ChunkFacts :=
  ((chunks.zip facts).filter fun pair => pair.1.live?.isSome).map (·.2)

/-- What is found of the octets and the chunks, and not of what the chunks say. -/
def Finding.aboutForm : Finding → Bool
  | truncatedCapture _ _ => true
  | chunkLength _ _ _ => true
  | trailingBytes _ => true
  | illegalBundling _ => true
  | malformedChunk _ _ _ => true
  | _ => false

def otherFindings (findings : List Finding) : List Finding :=
  findings.filter fun finding => !finding.aboutForm

/-- Two datagrams of one frame that differ in inert chunks, and in the octets behind the chunks. -/
structure Alike (d : Datagram) (p : Packet) (e : Datagram) (q : Packet) : Prop where
  decoded : Packet.decode d.data = .ok p
  decoded' : Packet.decode e.data = .ok q
  frame : d.frame = e.frame
  time : d.time = e.time
  source : d.source = e.source
  destination : d.destination = e.destination
  header : p.header = q.header
  chunks : remaining p.chunks = remaining q.chunks

def Context.takeEach (ctx : Context) : Tables → List Chunk → Tables × List ChunkReport
  | tables, [] => (tables, [])
  | tables, chunk :: rest =>
    let (tables, report) := ctx.takeChunk tables chunk
    let (tables, reports) := ctx.takeEach tables rest
    (tables, report :: reports)

variable {s : Session} {ctx : Context} {tables : Tables} {raw : RawChunk} {chunk : Chunk}
  {d e : Datagram} {p q : Packet}

theorem remaining_cons_of_none {rest : List RawChunk} (inert : raw.live? = none) :
    remaining (raw :: rest) = remaining rest :=
  List.filterMap_cons_none inert

theorem remaining_cons_of_some {rest : List RawChunk} (live : raw.live? = some chunk) :
    remaining (raw :: rest) = chunk :: remaining rest :=
  List.filterMap_cons_some live

theorem decode_of_live (live : raw.live? = some chunk) : raw.decode = .ok chunk := by
  obtain ⟨decoded, -⟩ := Option.filter_eq_some_iff.mp live
  cases read : raw.decode with
  | error reason =>
    rw [read] at decoded
    cases decoded
  | ok c =>
    rw [read] at decoded
    cases decoded
    rfl

theorem inert_of_not_live (dead : raw.live? = none) (decoded : raw.decode = .ok chunk) :
    chunk.inert = true := by
  rw [RawChunk.live?, decoded] at dead
  simpa [Except.toOption] using dead

theorem takeRaw_of_live (live : raw.live? = some chunk) :
    ctx.takeRaw tables raw = ctx.takeChunk tables chunk := by
  rw [Context.takeRaw, decode_of_live live]

theorem takeRaw_of_not_live (ctx : Context) (tables : Tables) (dead : raw.live? = none) :
    (ctx.takeRaw tables raw).1 = tables ∧
      otherFindings (ctx.takeRaw tables raw).2.findings = [] := by
  unfold Context.takeRaw
  cases decoded : raw.decode with
  | error reason => exact ⟨rfl, rfl⟩
  | ok chunk =>
    have inert := inert_of_not_live dead decoded
    cases chunk with
    | abort reflected => exact ⟨rfl, rfl⟩
    | shutdownComplete reflected => exact ⟨rfl, rfl⟩
    | other code length => exact ⟨rfl, rfl⟩
    | _ => cases inert

theorem remaining_eq_filter (chunks : List RawChunk) :
    remaining chunks = (decodable chunks).filter fun c => !c.inert := by
  rw [decodable, List.filter_filterMap]
  rfl

theorem observeChunk_of_inert (header : CommonHeader) (o : Observation)
    (inert : chunk.inert = true) : observeChunk header o chunk = o := by
  cases chunk with
  | abort reflected =>
    cases reflected with
    | false => rfl
    | true => cases inert
  | shutdownComplete reflected =>
    cases reflected with
    | false => rfl
    | true => cases inert
  | other code length => rfl
  | _ => cases inert

theorem foldl_observeChunk (header : CommonHeader) (chunks : List RawChunk) (o : Observation) :
    (decodable chunks).foldl (observeChunk header) o =
      (remaining chunks).foldl (observeChunk header) o := by
  rw [remaining_eq_filter, List.foldl_filter]
  congr 1
  funext o chunk
  cases inert : chunk.inert with
  | false => rfl
  | true => exact observeChunk_of_inert header o inert

theorem kept_cons (raw : RawChunk) (rest : List RawChunk) (facts : ChunkFacts)
    (later : List ChunkFacts) : kept (raw :: rest) (facts :: later) =
      (if raw.live?.isSome then [facts] else []) ++ kept rest later := by
  unfold kept
  rw [List.zip_cons_cons, List.filter_cons]
  split <;> rfl

theorem takeAll_remaining (ctx : Context) (tables : Tables) (chunks : List RawChunk) :
    (ctx.takeAll tables chunks).1 = (ctx.takeEach tables (remaining chunks)).1 ∧
      kept chunks ((ctx.takeAll tables chunks).2.map (·.facts)) =
        (ctx.takeEach tables (remaining chunks)).2.map (·.facts) ∧
      otherFindings ((ctx.takeAll tables chunks).2.flatMap (·.findings)) =
        otherFindings ((ctx.takeEach tables (remaining chunks)).2.flatMap (·.findings)) := by
  induction chunks generalizing tables with
  | nil => exact ⟨rfl, rfl, rfl⟩
  | cons raw rest ih =>
    obtain ⟨after, facts, findings⟩ := ih (ctx.takeRaw tables raw).1
    simp only [Context.takeAll_cons, List.map_cons, List.flatMap_cons, kept_cons, otherFindings,
      List.filter_append] at after facts findings ⊢
    cases live : raw.live? with
    | none =>
      obtain ⟨same, nothing⟩ := takeRaw_of_not_live ctx tables live
      rw [otherFindings] at nothing
      rw [same] at after facts findings
      rw [remaining_cons_of_none live, same, after, facts, findings, nothing]
      exact ⟨rfl, rfl, rfl⟩
    | some chunk =>
      rw [takeRaw_of_live live] at after facts findings ⊢
      rw [remaining_cons_of_some live, after, facts, findings, ← List.filter_append]
      exact ⟨rfl, rfl, rfl⟩

theorem length_takeAll (ctx : Context) (tables : Tables) (chunks : List RawChunk) :
    (ctx.takeAll tables chunks).2.length = chunks.length := by
  induction chunks generalizing tables with
  | nil => rfl
  | cons raw rest ih => rw [Context.takeAll_cons, List.length_cons, List.length_cons, ih]

theorem otherFindings_packetFindings (d : Datagram) (p : Packet) :
    otherFindings (packetFindings d p) = [] := by
  simp only [packetFindings, otherFindings, List.filter_append, List.append_eq_nil_iff]
  refine ⟨⟨⟨?_, ?_⟩, ?_⟩, ?_⟩
  · unfold captureFindings
    split <;> rfl
  · unfold lengthFindings
    split <;> rfl
  · unfold trailingFindings
    split <;> rfl
  · unfold bundlingFindings
    split
    · rfl
    · rw [List.filter_map]
      simp [Function.comp_def, Finding.aboutForm]

section Alike

variable (alike : Alike d p e q)

include alike

theorem Alike.observation : observation d p = observation e q := by
  unfold Session.observation
  rw [foldl_observeChunk, foldl_observeChunk, alike.header, alike.source, alike.destination,
    alike.chunks]

theorem Alike.assign : s.assign d p = s.assign e q := by
  unfold Session.assign
  rw [alike.frame, alike.observation]

theorem Alike.context : s.context d p = s.context e q := by
  unfold Session.context Datagram.stamp
  rw [alike.assign, alike.header, alike.frame, alike.time]

theorem Alike.opened : s.opened d p = s.opened e q := by
  unfold Session.opened
  rw [alike.assign]

end Alike

theorem visit_of_new (new : Keyed.get? d.frame s.frames = none)
    (decoded : Packet.decode d.data = .ok p) :
    s.visit d = ((s.take d p).1, .ok (s.take d p).2) := by
  unfold visit
  rw [new, decoded]

theorem take_remaining (s : Session) (d : Datagram) (p : Packet) :
    let each := (s.context d p).takeEach (s.opened d p) (remaining p.chunks)
    (s.take d p).1.tables = each.1 ∧ (s.take d p).2.chunks.length = p.chunks.length ∧
      kept p.chunks (s.take d p).2.chunks = each.2.map (·.facts) ∧
      otherFindings (s.take d p).2.findings = otherFindings (each.2.flatMap (·.findings)) := by
  intro each
  obtain ⟨after, facts, findings⟩ := takeAll_remaining (s.context d p) (s.opened d p) p.chunks
  refine ⟨after, ?_, facts, ?_⟩
  · exact (List.length_map _).trans (length_takeAll (s.context d p) (s.opened d p) p.chunks)
  · rw [facts_take]
    exact (List.filter_append _ _).trans
      ((congrArg (· ++ _) (otherFindings_packetFindings d p)).trans findings)

/-- Of two datagrams of a new frame that differ in inert chunks only, either leads to the same
associations, halves and fragments, and to the same answer for the chunks that remain. -/
theorem visit_of_alike (s : Session) (alike : Alike d p e q)
    (new : Keyed.get? d.frame s.frames = none) :
    (s.visit d).1.associations = (s.visit e).1.associations ∧
      (s.visit d).1.tables = (s.visit e).1.tables ∧
      ∃ f g, (s.visit d).2 = .ok f ∧ (s.visit e).2 = .ok g ∧ f.flow = g.flow ∧
        f.chunks.length = p.chunks.length ∧ g.chunks.length = q.chunks.length ∧
        kept p.chunks f.chunks = kept q.chunks g.chunks ∧
        otherFindings f.findings = otherFindings g.findings := by
  obtain ⟨tables, length, facts, findings⟩ := take_remaining s d p
  obtain ⟨tables', length', facts', findings'⟩ := take_remaining s e q
  rw [visit_of_new new alike.decoded, visit_of_new (alike.frame ▸ new) alike.decoded']
  rw [alike.context, alike.opened, alike.chunks] at tables facts findings
  have assigned : s.assign d p = s.assign e q := alike.assign
  exact ⟨congrArg (·.1) assigned, tables.trans tables'.symm, _, _, rfl, rfl,
    congrArg (·.2) assigned, length, length', facts.trans facts'.symm,
    findings.trans findings'.symm⟩

def greeted : Session :=
  ((start {}).visit (between 1 2905 2906 0 (InitChunk.write ⟨9, 1500, 1, 1, 10⟩ false))).1

def firstFragment : Bytes := DataChunk.write ⟨10, 1, 5, 0, [65], false, true, false⟩

/-- A fragment with an unknown chunk, an ABORT and a DATA chunk without fields before it, and a
SHUTDOWN-COMPLETE and a chunk that is cut behind it. -/
def amongBroken : Bytes :=
  writeChunk .heartbeat 0 [1] ++ writeChunk .abort 0 [] ++ writeChunk .data 3 [0, 0, 0, 10] ++
    firstFragment ++ writeChunk .shutdownComplete 0 [] ++ [0, 3, 0, 17, 0]

theorem visit_of_alike_among_broken :
    ∃ p q, Alike (between 2 2905 2906 7 firstFragment) p (between 2 2905 2906 7 amongBroken) q ∧
      Keyed.get? 2 greeted.frames = none ∧
      remaining p.chunks = [.data ⟨10, 1, 5, 0, [65], false, true, false⟩] ∧
      q.chunks.length = 5 ∧ q.lengthError = some (.invalidLength 56 17 5) ∧
      (greeted.visit (between 2 2905 2906 7 firstFragment)).1.tables =
        (greeted.visit (between 2 2905 2906 7 amongBroken)).1.tables := by
  obtain ⟨p, decoded, readOf⟩ := Packet.decode_of_map
    (d := (between 2 2905 2906 7 firstFragment).data)
    (f := fun p => (p.header, remaining p.chunks))
    (a := (⟨2905, 2906, 7, 0⟩, [.data ⟨10, 1, 5, 0, [65], false, true, false⟩]))
    (by decide +kernel)
  obtain ⟨q, decoded', read'⟩ := Packet.decode_of_map
    (d := (between 2 2905 2906 7 amongBroken).data)
    (f := fun p => (p.header, remaining p.chunks, p.chunks.length, p.lengthError))
    (a := (⟨2905, 2906, 7, 0⟩, [.data ⟨10, 1, 5, 0, [65], false, true, false⟩], 5,
      some (.invalidLength 56 17 5))) (by decide +kernel)
  simp only [Prod.mk.injEq] at readOf read'
  obtain ⟨header, chunks⟩ := readOf
  obtain ⟨header', chunks', length, error⟩ := read'
  have alike : Alike (between 2 2905 2906 7 firstFragment) p
      (between 2 2905 2906 7 amongBroken) q :=
    ⟨decoded, decoded', rfl, rfl, rfl, rfl, header.trans header'.symm, chunks.trans chunks'.symm⟩
  have new : Keyed.get? 2 greeted.frames = none := by decide +kernel
  exact ⟨p, q, alike, new, chunks, length, error, (visit_of_alike greeted alike new).2.1⟩

end SctpTrace.Session
