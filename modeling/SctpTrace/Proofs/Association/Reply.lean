import SctpTrace.Proofs.Association.Unique

/-!
A packet and the answer to it, each showing the tag of its destination only, on ports where nothing
is known yet. An answer is looked up under its own tag, and the association of the packet is listed
under the tag that the packet showed. So the two meet exactly if the tags are equal
(`Exchange.Seen.answered`), although an answer with any tag matches the association.
-/
namespace SctpTrace

structure Exchange where
  port : UInt16
  answeringPort : UInt16
  host : Address
  answeringHost : Address
  tag : UInt32
  answerTag : UInt32
  tagged : tag ≠ 0
  answerTagged : answerTag ≠ 0
  apart : port ≠ answeringPort ∨ tag ≠ answerTag

namespace Exchange

def packet (e : Exchange) : Observation :=
  ⟨e.port, e.answeringPort, e.host, e.answeringHost, e.tag, 0⟩

def answer (e : Exchange) : Observation :=
  ⟨e.answeringPort, e.port, e.answeringHost, e.host, e.answerTag, 0⟩

def ports (e : Exchange) : Sym2 UInt16 := s(e.port, e.answeringPort)

variable {e : Exchange} {tag : UInt32}

theorem ports_answer : e.answer.ports = e.ports := Sym2.eq_swap

theorem mem_probes_answer : tag ∈ e.answer.probes ↔ tag = e.answerTag := by
  simp [Observation.probes, answer, e.answerTagged]

end Exchange

namespace AssociationTable

variable {t : AssociationTable} {a b : Association} {o : Observation} {frame : FrameNumber}
  {e : Exchange} {i : Nat}

def Vacant (t : AssociationTable) (ports : Sym2 UInt16) : Prop :=
  ∀ a ∈ t.associations, a.ports ≠ ports

instance (t : AssociationTable) (ports : Sym2 UInt16) : Decidable (t.Vacant ports) :=
  inferInstanceAs (Decidable (∀ a ∈ t.associations, a.ports ≠ ports))

structure Alone (t : AssociationTable) (i : Nat) (a : Association) : Prop where
  here : t.associations[i]? = some a
  only : ∀ (j : Nat) (b : Association), t.associations[j]? = some b → b.ports = a.ports → j = i

theorem Alone.assign (alone : t.Alone i a) (exact : t.Exact) (elsewhere : o.ports ≠ a.ports) :
    (t.assign frame o).1.Alone i a := by
  obtain ⟨b, now, covers⟩ := exact.covers_assign frame o
  have apart : i ≠ (t.assign frame o).2.index := by
    intro same
    obtain ⟨c, later, grows⟩ := (t.extends_assign frame o).associations i a alone.here
    rw [same, now] at later
    cases later
    exact elsewhere (covers.ports.symm.trans grows.ports)
  refine ⟨(associations_assign apart).trans alone.here, ?_⟩
  intro j c there ports
  by_cases own : j = (t.assign frame o).2.index
  · rw [own, now] at there
    cases there
    exact absurd (covers.ports.symm.trans ports) elsewhere
  · rw [associations_assign own] at there
    exact alone.only j c there ports

theorem Alone.resolveAll (alone : t.Alone i a) (exact : t.Exact) (run : List Inquiry)
    (elsewhere : ∀ x ∈ run, x.observation.ports ≠ a.ports) : (t.resolveAll run).1.Alone i a :=
  (resolveAll_induction (P := fun t => t.Exact ∧ t.Alone i a) run
    (fun _ x there _ kept => ⟨kept.1.assign, kept.2.assign kept.1 (elsewhere x there)⟩)
    ⟨exact, alone⟩).2

theorem Vacant.opens (vacant : t.Vacant e.ports) (exact : t.Exact) (frame : FrameNumber) :
    (t.assign frame e.packet).2 = ⟨t.associations.length, .forward⟩ ∧
      (t.assign frame e.packet).1.Alone t.associations.length (t.fresh frame e.packet) := by
  have unknown : t.lookup? e.packet = none := by
    apply exact.lookup?_eq_none
    rintro tag - j ⟨b, there, ports, -⟩
    exact vacant b (List.mem_of_getElem? there) ports
  obtain ⟨flow, here⟩ := assign_new frame unknown
  refine ⟨flow, here, ?_⟩
  intro j b there ports
  by_contra apart
  rw [associations_assign (by rwa [flow])] at there
  exact vacant b (List.mem_of_getElem? there) ports

/-- The answer finds the association under the tag that it shares with the packet, and otherwise
opens another one. -/
theorem Alone.answered {before : AssociationTable}
    (alone : t.Alone i (before.fresh frame e.packet)) (exact : t.Exact) (again : FrameNumber) :
    (t.assign again e.answer).2 =
      if e.tag = e.answerTag then ⟨i, .reverse⟩ else ⟨t.associations.length, .forward⟩ := by
  have ports : (before.fresh frame e.packet).ports = e.answer.ports := Exchange.ports_answer.symm
  have holds : (before.fresh frame e.packet).Holds e.answerTag ↔ e.tag = e.answerTag := by
    simp [Association.Holds, fresh, Exchange.packet, e.answerTagged, e.answerTagged.symm]
  have only : ∀ j tag, t.HeldAt j e.answer.ports tag → j = i := by
    rintro j tag ⟨b, there, same, -⟩
    exact alone.only j b there (same.trans ports.symm)
  split
  · rename_i same
    have differ : e.answeringPort ≠ e.port := fun equal =>
      e.apart.elim (fun apart => apart equal.symm) fun apart => apart same
    have found : t.lookup? e.answer = some ⟨i, .reverse⟩ := by
      refine exact.lookup?_eq_some alone.here ports ?_ (fun tag _ j held => only j tag held) ?_ ?_
      · exact ⟨_, Exchange.mem_probes_answer.mpr rfl, holds.mpr same⟩
      · -- No tag is known to both, so the hosts decide; they stand the other way round.
        simp [Association.direction?, Association.matchesForward, Association.matchesReverse, fresh,
          Exchange.packet, Exchange.answer, Observation.tags, TagPair.agree, Tag.agree, differ]
      · intro direction key
        cases direction with
        | reverse => rfl
        | forward => exact absurd (congrArg (·.destinationPort) key) differ
    exact (assign_known again found alone.here).1
  · rename_i differ
    have unknown : t.lookup? e.answer = none := by
      apply exact.lookup?_eq_none
      intro tag probed j held
      have place := only j tag held
      subst place
      obtain ⟨b, there, -, held⟩ := held
      rw [alone.here] at there
      cases there
      rw [Exchange.mem_probes_answer.mp probed, holds] at held
      exact differ held
    exact (assign_new again unknown).1

end AssociationTable

structure Exchange.Seen (e : Exchange) (t : AssociationTable) (frame : FrameNumber)
    (between : List Inquiry) (again : FrameNumber) : Prop where
  reachable : t.Reachable
  vacant : t.Vacant e.ports
  new : Keyed.get? frame t.frames = none
  elsewhere : ∀ x ∈ between, x.observation.ports ≠ e.ports
  unused : Keyed.get? again
    ((t.resolve frame false e.packet).1.resolveAll between).1.frames = none

/-- The flow of the answer, if the packet opened the association at `n` and there are `count`
associations when the answer comes. -/
def Exchange.answerFlow (e : Exchange) (n count : Nat) : Flow :=
  if e.tag = e.answerTag then ⟨n, .reverse⟩ else ⟨count, .forward⟩

theorem Exchange.Seen.answered {e : Exchange} {t : AssociationTable} {frame again : FrameNumber}
    {between : List Inquiry} (seen : e.Seen t frame between again) :
    let later := ((t.resolve frame false e.packet).1.resolveAll between).1
    t.associations.length < later.associations.length ∧
      (t.resolve frame false e.packet).2 = some ⟨t.associations.length, .forward⟩ ∧
      (later.resolve again false e.answer).2 =
        some (e.answerFlow t.associations.length later.associations.length) := by
  intro later
  have opened := seen.reachable.resolve frame false e.packet
  have exact : later.Exact := (opened.resolveAll between).exact
  obtain ⟨flow, first⟩ := seen.vacant.opens seen.reachable.exact frame
  have alone : later.Alone t.associations.length (t.fresh frame e.packet) := by
    rw [← congrArg Prod.fst (AssociationTable.resolve_new seen.new e.packet)] at first
    exact first.resolveAll opened.exact between seen.elsewhere
  refine ⟨(List.getElem?_eq_some_iff.mp alone.here).1, ?_, ?_⟩
  · rw [AssociationTable.resolve_new seen.new, flow]
  · rw [AssociationTable.resolve_new seen.unused]
    exact congrArg some (alone.answered exact again)

end SctpTrace
