import SctpTrace.Proofs.Association.Growth
import SctpTrace.Proofs.Isolation.Visit
import SctpTrace.Proofs.Session.Passes

/-!
The association table in a session. It is the one that the decoded packets lead to, in their order
(`Indexed.associations_visitAll`), so that what holds of every table holds in a session. The flow of
a chunk is that of an association which knows what its packet shows (`Indexed.resolved_passes`).
-/
namespace SctpTrace.Session

open Wire

def inquiry? (d : Datagram) : Option Inquiry :=
  (Packet.decode d.data).toOption.map fun p => ⟨d.frame, false, observation d p⟩

structure Indexed (s : Session) : Prop where
  indexing : s.config.indexing = true
  reachable : s.associations.Reachable
  frames : ∀ frame, Keyed.get? frame s.associations.frames = none ↔
    Keyed.get? frame s.frames = none

structure ChunkPass.Resolved (x : ChunkPass) (t : AssociationTable) (d : Datagram) (p : Packet) :
    Prop where
  decoded : Packet.decode d.data = .ok p
  header : x.ctx.header = p.header
  stamp : x.ctx.stamp = d.stamp
  association : ∃ f a, x.flow = some f ∧ t.associations[f.index]? = some a ∧
    a.Covers (observation d p) f.direction

variable {s : Session} {ctx : Context} {flow : Option Flow} {tables : Tables} {x : ChunkPass}
  {d : Datagram} {p : Packet} {t t' : AssociationTable}

theorem Fresh.indexed (fresh : s.Fresh) (indexing : s.config.indexing = true) : s.Indexed := by
  obtain ⟨associations, -, frames⟩ := fresh.blank
  refine ⟨indexing, ?_, ?_⟩
  · rw [associations]
    exact ⟨[], rfl⟩
  · intro frame
    rw [associations, frames]
    exact iff_of_true rfl rfl

theorem Indexed.assign_eq (indexed : s.Indexed) (new : Keyed.get? d.frame s.frames = none)
    (p : Packet) :
    s.assign d p = ((s.associations.assign d.frame (observation d p)).1,
      some (s.associations.assign d.frame (observation d p)).2) := by
  rw [Session.assign, if_pos indexed.indexing]
  exact AssociationTable.resolve_new ((indexed.frames d.frame).mpr new) _

theorem Indexed.visit (indexed : s.Indexed) (d : Datagram) :
    (s.visit d).1.Indexed ∧
      (s.visit d).1.associations = (s.associations.resolveAll (inquiry? d).toList).1 := by
  have visited := visit_cases s d
  generalize s.visit d = outcome at visited ⊢
  cases visited with
  | repeated entry known =>
    have seen : Keyed.get? d.frame s.associations.frames ≠ none := by
      rw [Ne, indexed.frames, known]
      exact Option.some_ne_none _
    refine ⟨⟨indexed.indexing, indexed.reachable, ?_⟩, ?_⟩
    · intro frame
      rw [indexed.frames, Keyed.get?_put]
      split
      · rename_i same
        rw [← same, known]
        simp
      · exact Iff.rfl
    · cases question : inquiry? d with
      | none => rfl
      | some x =>
        obtain ⟨q, -, rfl⟩ := Option.map_eq_some_iff.mp question
        obtain ⟨f, here⟩ := Option.ne_none_iff_exists'.mp seen
        simp only [Option.toList_some, AssociationTable.resolveAll, AssociationTable.resolve, here]
  | refused e new undecoded =>
    refine ⟨indexed, ?_⟩
    rw [inquiry?, undecoded]
    rfl
  | taken p new decoded =>
    have unknown := (indexed.frames d.frame).mpr new
    have taken : (s.take d p).1.associations =
        (s.associations.assign d.frame (observation d p)).1 :=
      congrArg Prod.fst (indexed.assign_eq new p)
    have resolved : (s.associations.resolveAll (inquiry? d).toList).1 =
        (s.associations.assign d.frame (observation d p)).1 := by
      rw [inquiry?, decoded]
      exact congrArg Prod.fst (AssociationTable.resolve_new unknown _)
    refine ⟨⟨indexed.indexing, ?_, ?_⟩, taken.trans resolved.symm⟩
    · rw [taken, ← resolved]
      exact indexed.reachable.resolveAll _
    · intro frame
      rw [taken, AssociationTable.frames_assign, (take_eq d p).2.2.2, Keyed.get?_put,
        Keyed.get?_put]
      split
      · simp
      · exact indexed.frames frame

theorem Indexed.visitAll (indexed : s.Indexed) (run : List Datagram) :
    (s.visitAll run).1.Indexed := by
  induction run generalizing s with
  | nil => exact indexed
  | cons d rest ih => exact ih (indexed.visit d).1

theorem Indexed.associations_visitAll (indexed : s.Indexed) (run : List Datagram) :
    (s.visitAll run).1.associations =
      (s.associations.resolveAll (run.filterMap inquiry?)).1 := by
  induction run generalizing s with
  | nil => rfl
  | cons d rest ih =>
    obtain ⟨later, here⟩ := indexed.visit d
    rw [visitAll_cons, ih later, here, ← AssociationTable.resolveAll_append, List.filterMap_cons]
    cases inquiry? d <;> rfl

theorem Indexed.extends_visitAll (indexed : s.Indexed) (run : List Datagram) :
    s.associations.Extends (s.visitAll run).1.associations := by
  rw [indexed.associations_visitAll]
  exact AssociationTable.extends_resolveAll _ _

theorem mem_passes {chunks : List RawChunk} (there : x ∈ ctx.passes flow tables chunks) :
    x.ctx = ctx ∧ x.flow = flow := by
  induction chunks generalizing tables with
  | nil => cases there
  | cons raw rest ih =>
    rcases List.mem_cons.mp there with rfl | later
    · exact ⟨rfl, rfl⟩
    · exact ih later

theorem ChunkPass.Resolved.later (resolved : x.Resolved t d p) (extends_ : t.Extends t') :
    x.Resolved t' d p := by
  obtain ⟨f, a, own, here, covers⟩ := resolved.association
  obtain ⟨b, now, grows⟩ := extends_.associations _ a here
  exact ⟨resolved.decoded, resolved.header, resolved.stamp, f, b, own, now, grows.covers covers⟩

theorem Indexed.resolved_passesOf (indexed : s.Indexed) (there : x ∈ s.passesOf d) :
    ∃ p, x.Resolved (s.visit d).1.associations d p := by
  have visited := visit_cases s d
  generalize s.visit d = outcome at visited ⊢
  cases visited with
  | repeated entry known => simp [passesOf, known] at there
  | refused e new undecoded => simp [passesOf, new, undecoded] at there
  | taken p new decoded =>
    rw [passesOf_taken new decoded] at there
    obtain ⟨ctx, flow⟩ := mem_passes there
    obtain ⟨a, here, covers⟩ := indexed.reachable.exact.covers_assign d.frame (observation d p)
    have assigned := indexed.assign_eq new p
    refine ⟨p, decoded, by rw [ctx]; rfl, by rw [ctx]; rfl, _, a, ?_, ?_, covers⟩
    · rw [flow, assigned]
    · rw [(take_eq d p).2.1, assigned]
      exact here

/-- Every chunk of a run is in the flow of an association that knows what its packet shows. -/
theorem Indexed.resolved_passes (indexed : s.Indexed) (run : List Datagram) :
    ∀ x ∈ s.passes run, ∃ d ∈ run, ∃ p, x.Resolved (s.visitAll run).1.associations d p := by
  induction run generalizing s with
  | nil =>
    intro x absent
    cases absent
  | cons d rest ih =>
    have next := (indexed.visit d).1
    intro x there
    rw [passes, List.mem_append] at there
    rw [visitAll_cons]
    rcases there with here | later
    · obtain ⟨p, resolved⟩ := indexed.resolved_passesOf here
      exact ⟨d, List.mem_cons_self, p, resolved.later (next.extends_visitAll rest)⟩
    · obtain ⟨d', member, resolved⟩ := ih next x later
      exact ⟨d', List.mem_cons_of_mem _ member, resolved⟩

end SctpTrace.Session
