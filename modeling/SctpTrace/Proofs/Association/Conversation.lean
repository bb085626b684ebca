import SctpTrace.Proofs.Association.Growth

/-!
Two endpoints that talk to each other. Once both of their tags were shown, every packet between them
belongs to one association, in one direction for each sender, whatever else is on their ports
(`one_association_for_both`).
-/
namespace SctpTrace

/-- An end of an association with the tag that it chose, which packets to it show. -/
structure Endpoint where
  port : UInt16
  tag : UInt32
  deriving DecidableEq, Repr

namespace Endpoint

def sends (e e' : Endpoint) (o : Observation) : Bool :=
  o.sourcePort == e.port && o.destinationPort == e'.port &&
    (o.destinationTag == e'.tag || o.destinationTag == 0) &&
    (o.sourceTag == e.tag || o.sourceTag == 0) && !(o.destinationTag == 0 && o.sourceTag == 0)

def talks (e e' : Endpoint) (o : Observation) : Bool := e.sends e' o || e'.sends e o

def ports (e e' : Endpoint) : Sym2 UInt16 := s(e.port, e'.port)

def Unrelated (e e' : Endpoint) (o : Observation) : Prop :=
  o.ports = e.ports e' → ∀ tag, tag = e.tag ∨ tag = e'.tag →
    o.destinationTag ≠ tag ∧ o.sourceTag ≠ tag

def talk (e e' : Endpoint) (run : List Inquiry) : List Observation :=
  (run.map (·.observation)).filter (e.talks e')

def Answered (e e' : Endpoint) (index : Nat) (direction : Direction) (x : Inquiry)
    (answer : Option Flow) : Prop :=
  (e.sends e' x.observation = true → answer = some ⟨index, direction⟩) ∧
    (e'.sends e x.observation = true → answer = some ⟨index, direction.opposite⟩)

end Endpoint

def Association.shown (a : Association) : Observation :=
  ⟨a.sourcePort, a.destinationPort, a.source, a.destination, a.destinationTag, a.sourceTag⟩

variable {s r : Endpoint} {a : Association} {o : Observation} {t : AssociationTable}
  {frame : FrameNumber} {tag : UInt32} {i j : Nat} {direction : Direction}

namespace Endpoint

theorem sends_iff :
    s.sends r o = true ↔ o.sourcePort = s.port ∧ o.destinationPort = r.port ∧
      (o.destinationTag = r.tag ∨ o.destinationTag = 0) ∧
      (o.sourceTag = s.tag ∨ o.sourceTag = 0) ∧
      ¬ (o.destinationTag = 0 ∧ o.sourceTag = 0) := by
  simp only [sends, Bool.and_eq_true, Bool.or_eq_true, beq_iff_eq, Bool.not_eq_true',
    Bool.and_eq_false_iff, beq_eq_false_iff_ne, not_and_or, and_assoc, ne_eq]

theorem ports_comm : s.ports r = r.ports s := Sym2.eq_swap

theorem talks_comm : s.talks r = r.talks s := by
  funext o
  exact Bool.or_comm _ _

theorem talk_comm : s.talk r = r.talk s := by
  funext run
  rw [talk, talks_comm]
  rfl

theorem unrelated_comm : s.Unrelated r o ↔ r.Unrelated s o := by
  simp only [Unrelated, ports_comm (s := s), or_comm (a := _ = s.tag)]

theorem Answered.symm {x : Inquiry} {answer : Option Flow}
    (answered : s.Answered r i direction x answer) :
    r.Answered s i direction.opposite x answer := by
  refine ⟨answered.2, ?_⟩
  rw [Direction.opposite_opposite]
  exact answered.1

theorem talks_of_sends (sent : s.sends r o = true) : s.talks r o = true := by
  simp [talks, sent]

theorem talks_of_answers (sent : r.sends s o = true) : s.talks r o = true := by
  simp [talks, sent]

theorem not_answers_of_sends (tagged : s.tag ≠ 0) (taggedToo : r.tag ≠ 0) (apart : s ≠ r)
    (sent : s.sends r o = true) : r.sends s o ≠ true := by
  cases s
  cases r
  simp only [ne_eq, sends_iff, Endpoint.mk.injEq] at *
  grind

theorem probes_of_talks (talks : s.talks r o = true) :
    o.ports = s.ports r ∧ ∀ tag ∈ o.probes, tag = s.tag ∨ tag = r.tag := by
  simp only [Endpoint.talks, Bool.or_eq_true, sends_iff] at talks
  refine ⟨?_, ?_⟩
  · rcases talks with ⟨source, destination, -⟩ | ⟨source, destination, -⟩
    · rw [Observation.ports, source, destination]
      rfl
    · rw [Observation.ports, source, destination]
      exact Sym2.eq_swap
  · intro tag probed
    rw [Observation.mem_probes_iff] at probed
    grind

theorem probes_of_unrelated (unrelated : s.Unrelated r o) (ports : o.ports = s.ports r)
    (own : tag = s.tag ∨ tag = r.tag) : tag ∉ o.probes := by
  have shows := unrelated ports tag own
  rw [Observation.mem_probes_iff]
  grind

end Endpoint

namespace Association

theorem tag_of_holds (opened : s.sends r a.shown = true) (held : a.Holds tag) :
    tag = s.tag ∨ tag = r.tag := by
  have known := Endpoint.sends_iff.mp opened
  simp only [shown, Holds] at known held
  grind

theorem ports_of_sends (opened : s.sends r a.shown = true) : a.ports = s.ports r :=
  (Endpoint.probes_of_talks (Endpoint.talks_of_sends opened)).1

/- In the following the association knows both tags, or the packet shows both. Then they have a
   tag in common and none that is unknown to both sides, so that addresses do not matter. -/

theorem direction?_of_sends (opened : s.sends r a.shown = true) (sent : s.sends r o = true)
    (both : a.isComplete = true ∨ o.showsBoth = true) : a.direction? o = some .forward := by
  have known := Endpoint.sends_iff.mp opened
  have shows := Endpoint.sends_iff.mp sent
  simp only [shown] at known
  simp only [isComplete, Observation.showsBoth, Bool.and_eq_true, bne_iff_ne] at both
  have forward : a.matchesForward o = true := by
    simp only [matchesForward, TagPair.agree, Tag.agree, Tag.confirmed, Tag.unknown,
      Observation.tags]
    grind
  rw [direction?, if_pos forward]

theorem direction?_of_answers (tagged : s.tag ≠ 0) (taggedToo : r.tag ≠ 0) (apart : s ≠ r)
    (opened : s.sends r a.shown = true) (sent : r.sends s o = true)
    (both : a.isComplete = true ∨ o.showsBoth = true) : a.direction? o = some .reverse := by
  have known := Endpoint.sends_iff.mp opened
  have shows := Endpoint.sends_iff.mp sent
  have different : s.port = r.port → s.tag ≠ r.tag := by
    intro port same
    cases s
    cases r
    simp_all
  simp only [shown] at known
  simp only [isComplete, Observation.showsBoth, Bool.and_eq_true, bne_iff_ne] at both
  have forward : a.matchesForward o = false := by
    simp only [matchesForward, TagPair.agree, Tag.agree, Tag.confirmed, Tag.unknown,
      Observation.tags]
    grind
  have reverse : a.matchesReverse o = true := by
    simp only [matchesReverse, TagPair.agree, Tag.agree, Tag.confirmed, Tag.unknown,
      Observation.tags]
    grind
  simp [direction?, forward, reverse]

theorem share_tag (opened : s.sends r a.shown = true) (talks : s.talks r o = true)
    (both : a.isComplete = true ∨ o.showsBoth = true) : ∃ tag ∈ o.probes, a.Holds tag := by
  have known := Endpoint.sends_iff.mp opened
  simp only [Endpoint.talks, Bool.or_eq_true, Endpoint.sends_iff] at talks
  simp only [shown] at known
  simp only [isComplete, Observation.showsBoth, Bool.and_eq_true, bne_iff_ne] at both
  by_cases common : a.Holds o.destinationTag ∧ o.destinationTag ≠ 0
  · refine ⟨o.destinationTag, ?_, common.1⟩
    rw [Observation.mem_probes_iff]
    grind
  · refine ⟨o.sourceTag, ?_, ?_⟩
    · rw [Observation.mem_probes_iff]
      grind [Holds]
    · grind [Holds]

theorem key_of_sends (apart : s ≠ r) (opened : s.sends r a.shown = true) :
    (s.sends r o = true → a.key .reverse ≠ o.key) ∧
      (r.sends s o = true → a.key .forward ≠ o.key) := by
  have known := Endpoint.sends_iff.mp opened
  have different : s.port = r.port → s.tag ≠ r.tag := by
    intro port same
    cases s
    cases r
    simp_all
  simp only [Endpoint.sends_iff, key, Observation.key, Observation.tags, shown, ne_eq,
    PairKey.mk.injEq, TagPair.mk.injEq] at known ⊢
  grind

theorem sends_learned (opened : s.sends r a.shown = true) :
    (s.sends r o = true → s.sends r (AssociationTable.learned a o .forward).shown = true) ∧
      (r.sends s o = true → s.sends r (AssociationTable.learned a o .reverse).shown = true) := by
  have known := Endpoint.sends_iff.mp opened
  simp only [Endpoint.sends_iff, AssociationTable.learned, shown, Observation.tags] at known ⊢
  grind

theorem isComplete_learned (both : a.isComplete = true ∨ o.showsBoth = true) :
    (AssociationTable.learned a o direction).isComplete = true := by
  simp only [isComplete, Observation.showsBoth, Bool.and_eq_true, bne_iff_ne] at both ⊢
  cases direction <;> simp only [AssociationTable.learned, Observation.tags] <;> grind

end Association

namespace AssociationTable

structure Silent (t : AssociationTable) (s r : Endpoint) : Prop where
  exact : t.Exact
  absent : ∀ j tag, tag = s.tag ∨ tag = r.tag → ¬ t.HeldAt j (s.ports r) tag

/-- One end has opened the association at a place, the only one that holds a tag of the two. -/
structure Conversing (t : AssociationTable) (s r : Endpoint) (i : Nat) (a : Association) :
    Prop where
  exact : t.Exact
  here : t.associations[i]? = some a
  opened : s.sends r a.shown = true
  only : ∀ j tag, tag = s.tag ∨ tag = r.tag → t.HeldAt j (s.ports r) tag → j = i

theorem Silent.comm (silent : t.Silent s r) : t.Silent r s := by
  refine ⟨silent.exact, ?_⟩
  intro j tag own
  rw [Endpoint.ports_comm]
  exact silent.absent j tag own.symm

theorem Silent.other (silent : t.Silent s r) (unrelated : s.Unrelated r o) :
    (t.assign frame o).1.Silent s r := by
  refine ⟨silent.exact.assign, ?_⟩
  intro j tag own held
  rcases silent.exact.heldAt_assign held with before | ⟨-, ports, probed⟩
  · exact silent.absent j tag own before
  · exact Endpoint.probes_of_unrelated unrelated ports.symm own probed

theorem Silent.opens (frame : FrameNumber) (silent : t.Silent s r) (sent : s.sends r o = true) :
    (t.assign frame o).2 = ⟨t.associations.length, .forward⟩ ∧
      (t.assign frame o).1.Conversing s r t.associations.length (t.fresh frame o) := by
  obtain ⟨ports, tags⟩ := Endpoint.probes_of_talks (Endpoint.talks_of_sends sent)
  have unknown : t.lookup? o = none := by
    refine silent.exact.lookup?_eq_none ?_
    intro tag probed i
    rw [ports]
    exact silent.absent i tag (tags tag probed)
  obtain ⟨flow, here⟩ := assign_new frame unknown
  refine ⟨flow, silent.exact.assign, here, sent, ?_⟩
  intro j tag own held
  rcases silent.exact.heldAt_assign held with before | ⟨place, -⟩
  · exact absurd before (silent.absent j tag own)
  · rw [place, flow]

theorem Conversing.other (conversing : t.Conversing s r i a) (unrelated : s.Unrelated r o) :
    (t.assign frame o).1.Conversing s r i a := by
  have ports := Association.ports_of_sends conversing.opened
  have elsewhere : i ≠ (t.assign frame o).2.index := by
    cases found : t.lookup? o with
    | none =>
      rw [(assign_new _ found).1]
      exact Nat.ne_of_lt (List.getElem?_eq_some_iff.mp conversing.here).1
    | some f =>
      obtain ⟨b, there, portsToo, tag, probed, holds⟩ := conversing.exact.lookup?_sound found
      rw [(assign_known _ found there).1]
      rintro rfl
      rw [conversing.here] at there
      cases there
      exact Endpoint.probes_of_unrelated unrelated (portsToo.symm.trans ports)
        (Association.tag_of_holds conversing.opened holds) probed
  refine ⟨conversing.exact.assign, (associations_assign elsewhere).trans conversing.here,
    conversing.opened, ?_⟩
  intro j tag own held
  rcases conversing.exact.heldAt_assign held with before | ⟨-, sameports, probed⟩
  · exact conversing.only j tag own before
  · exact absurd probed
      (Endpoint.probes_of_unrelated unrelated sameports.symm own)

theorem Conversing.finds (frame : FrameNumber) (conversing : t.Conversing s r i a)
    (talks : s.talks r o = true)
    (both : a.isComplete = true ∨ o.showsBoth = true)
    (matching : a.direction? o = some direction)
    (oriented : a.key direction.opposite ≠ o.key)
    (opened : s.sends r (learned a o direction).shown = true) :
    (t.assign frame o).2 = ⟨i, direction⟩ ∧
      (t.assign frame o).1.Conversing s r i (learned a o direction) := by
  obtain ⟨ports, tags⟩ := Endpoint.probes_of_talks talks
  have found : t.lookup? o = some ⟨i, direction⟩ := by
    refine conversing.exact.lookup?_eq_some conversing.here ?_ ?_ ?_ matching ?_
    · rw [ports]
      exact Association.ports_of_sends conversing.opened
    · exact Association.share_tag conversing.opened talks both
    · intro tag probed j held
      rw [ports] at held
      exact conversing.only j tag (tags tag probed) held
    · intro other same
      cases other <;> cases direction
      · rfl
      · exact absurd same oriented
      · exact absurd same oriented
      · rfl
  obtain ⟨flow, after⟩ := assign_known frame found conversing.here
  refine ⟨flow, conversing.exact.assign, after, opened, ?_⟩
  intro j tag own held
  rcases conversing.exact.heldAt_assign held with before | ⟨place, -⟩
  · exact conversing.only j tag own before
  · rw [place, flow]

/-- Once both tags are known or shown, a packet from either end finds the association, in the
direction of its sender, and the association knows both tags. -/
theorem Conversing.hears (frame : FrameNumber) (tagged : s.tag ≠ 0) (taggedToo : r.tag ≠ 0)
    (apart : s ≠ r) (conversing : t.Conversing s r i a)
    (both : a.isComplete = true ∨ o.showsBoth = true) (direction : Direction)
    (sent : match direction with
      | .forward => s.sends r o = true
      | .reverse => r.sends s o = true) :
    (t.assign frame o).2 = ⟨i, direction⟩ ∧
      ∃ b, b.isComplete = true ∧ (t.assign frame o).1.Conversing s r i b := by
  have opened := conversing.opened
  cases direction with
  | forward =>
    obtain ⟨flow, after⟩ := conversing.finds frame (Endpoint.talks_of_sends sent) both
      (Association.direction?_of_sends opened sent both)
      ((Association.key_of_sends apart opened).1 sent)
      ((Association.sends_learned opened).1 sent)
    exact ⟨flow, _, Association.isComplete_learned both, after⟩
  | reverse =>
    obtain ⟨flow, after⟩ := conversing.finds frame (Endpoint.talks_of_answers sent) both
      (Association.direction?_of_answers tagged taggedToo apart opened sent both)
      ((Association.key_of_sends apart opened).2 sent)
      ((Association.sends_learned opened).2 sent)
    exact ⟨flow, _, Association.isComplete_learned both, after⟩

/- A run of packets, each of them seen for the first time. -/

structure FirstPasses (t : AssociationTable) (run : List Inquiry) : Prop where
  unvisited : ∀ x ∈ run, x.visited = false
  unknown : ∀ x ∈ run, Keyed.get? x.frame t.frames = none
  distinct : (run.map (·.frame)).Nodup

theorem FirstPasses.cons {x : Inquiry} {rest : List Inquiry} (passes : t.FirstPasses (x :: rest)) :
    t.resolveAll (x :: rest) =
        (((t.assign x.frame x.observation).1.resolveAll rest).1,
          some (t.assign x.frame x.observation).2 ::
            ((t.assign x.frame x.observation).1.resolveAll rest).2) ∧
      (t.assign x.frame x.observation).1.FirstPasses rest := by
  obtain ⟨unvisited, unknown, distinct⟩ := passes
  rw [List.map_cons, List.nodup_cons] at distinct
  refine ⟨?_, ?_, ?_, distinct.2⟩
  · rw [resolveAll_cons, resolve, unknown x List.mem_cons_self, unvisited x List.mem_cons_self]
    rfl
  · exact fun y there => unvisited y (List.mem_cons_of_mem _ there)
  · intro y there
    have other : x.frame ≠ y.frame := by
      intro same
      exact distinct.1 (same ▸ List.mem_map_of_mem there)
    rw [frames_assign, Keyed.get?_put, if_neg other]
    exact unknown y (List.mem_cons_of_mem _ there)

/-- While its first packets of the conversation decide on the tags, a run is answered from the
association that is open already. -/
theorem Conversing.resolveAll (tagged : s.tag ≠ 0) (taggedToo : r.tag ≠ 0) (apart : s ≠ r)
    (run : List Inquiry) (conversing : t.Conversing s r i a) (passes : t.FirstPasses run)
    (kinds : ∀ x ∈ run, s.talks r x.observation = true ∨ s.Unrelated r x.observation)
    (both : a.isComplete = true ∨ ∀ o ∈ (s.talk r run).head?, o.showsBoth = true) :
    List.Forall₂ (s.Answered r i .forward) run (t.resolveAll run).2 := by
  induction run generalizing t a with
  | nil => exact .nil
  | cons x rest ih =>
    obtain ⟨answers, passesLater⟩ := passes.cons
    have kindsLater := fun y there => kinds y (List.mem_cons_of_mem x there)
    rw [answers]
    cases talks : s.talks r x.observation with
    | true =>
      have shown : a.isComplete = true ∨ x.observation.showsBoth = true := by
        refine both.imp_right fun all => all _ ?_
        simp [Endpoint.talk, talks]
      have hears := conversing.hears x.frame tagged taggedToo apart shown
      refine .cons ⟨?_, ?_⟩ ?_
      · intro sent
        exact congrArg some (hears .forward sent).1
      · intro sent
        exact congrArg some (hears .reverse sent).1
      · have after : ∃ b, b.isComplete = true ∧
            (t.assign x.frame x.observation).1.Conversing s r i b := by
          rcases Bool.or_eq_true_iff.mp talks with sent | sent
          · exact (hears .forward sent).2
          · exact (hears .reverse sent).2
        obtain ⟨b, complete, conversingLater⟩ := after
        exact ih conversingLater passesLater kindsLater (Or.inl complete)
    | false =>
      have unrelated : s.Unrelated r x.observation := by
        simpa [talks] using kinds x List.mem_cons_self
      have notSent := Bool.or_eq_false_iff.mp talks
      refine .cons ⟨?_, ?_⟩ (ih (conversing.other unrelated) passesLater kindsLater ?_)
      · simp [notSent.1]
      · simp [notSent.2]
      · refine both.imp_right fun all => ?_
        simpa [Endpoint.talk, talks] using all

theorem Silent.begins (tagged : s.tag ≠ 0) (taggedToo : r.tag ≠ 0) (apart : s ≠ r)
    {x : Inquiry} {rest : List Inquiry} (silent : t.Silent s r)
    (passes : t.FirstPasses (x :: rest)) (sent : s.sends r x.observation = true)
    (kinds : ∀ y ∈ rest, s.talks r y.observation = true ∨ s.Unrelated r y.observation)
    (both : x.observation.showsBoth = true ∨ ∀ o ∈ (s.talk r rest).head?, o.showsBoth = true) :
    ∃ index, List.Forall₂ (s.Answered r index .forward) (x :: rest)
      (t.resolveAll (x :: rest)).2 := by
  obtain ⟨answers, passesLater⟩ := passes.cons
  obtain ⟨flow, conversing⟩ := silent.opens x.frame sent
  refine ⟨t.associations.length, ?_⟩
  rw [answers]
  refine .cons ⟨?_, ?_⟩ ?_
  · exact fun _ => congrArg some flow
  · intro answer
    exact absurd answer (Endpoint.not_answers_of_sends tagged taggedToo apart sent)
  · exact conversing.resolveAll tagged taggedToo apart rest passesLater kinds both

theorem Silent.resolveAll (tagged : s.tag ≠ 0) (taggedToo : r.tag ≠ 0) (apart : s ≠ r)
    (run : List Inquiry) (silent : t.Silent s r) (passes : t.FirstPasses run)
    (kinds : ∀ x ∈ run, s.talks r x.observation = true ∨ s.Unrelated r x.observation)
    (both : ∃ o ∈ (s.talk r run).take 2, o.showsBoth = true) :
    ∃ index direction, List.Forall₂ (s.Answered r index direction) run (t.resolveAll run).2 := by
  induction run generalizing t with
  | nil =>
    obtain ⟨o, absent, -⟩ := both
    cases absent
  | cons x rest ih =>
    have kindsLater := fun y there => kinds y (List.mem_cons_of_mem x there)
    cases talks : s.talks r x.observation with
    | true =>
      have first : s.talk r (x :: rest) = x.observation :: s.talk r rest := by
        simp [Endpoint.talk, talks]
      have shown : x.observation.showsBoth = true ∨
          ∀ o ∈ (s.talk r rest).head?, o.showsBoth = true := by
        rw [first] at both
        cases later : s.talk r rest <;> simp_all
      -- Either end may speak first, and the first packet decides what counts as forward.
      rcases Bool.or_eq_true_iff.mp talks with sent | sent
      · obtain ⟨index, all⟩ := silent.begins tagged taggedToo apart passes sent kindsLater shown
        exact ⟨index, .forward, all⟩
      · have kindsBack : ∀ y ∈ rest, r.talks s y.observation = true ∨
            r.Unrelated s y.observation := by
          intro y there
          rw [Endpoint.talks_comm, Endpoint.unrelated_comm]
          exact kindsLater y there
        rw [Endpoint.talk_comm] at shown
        obtain ⟨index, all⟩ := silent.comm.begins taggedToo tagged apart.symm passes sent
          kindsBack shown
        exact ⟨index, .reverse, all.imp fun _ _ answered => answered.symm⟩
    | false =>
      obtain ⟨answers, passesLater⟩ := passes.cons
      have unrelated : s.Unrelated r x.observation := by
        simpa [talks] using kinds x List.mem_cons_self
      have notSent := Bool.or_eq_false_iff.mp talks
      have later : s.talk r (x :: rest) = s.talk r rest := by simp [Endpoint.talk, talks]
      rw [later] at both
      obtain ⟨index, direction, all⟩ := ih (silent.other unrelated) passesLater kindsLater both
      rw [answers]
      refine ⟨index, direction, .cons ⟨?_, ?_⟩ all⟩
      · simp [notSent.1]
      · simp [notSent.2]

/-- Two endpoints start to talk on ports where neither of their tags is held. If one of the first
two packets between them shows both tags, then all of them are resolved to one association, in one
direction for each sender. -/
theorem one_association_for_both (reachable : t.Reachable) (e e' : Endpoint) (tagged : e.tag ≠ 0)
    (taggedToo : e'.tag ≠ 0) (apart : e ≠ e')
    (vacant : ∀ a ∈ t.associations, a.ports = e.ports e' → ¬ a.Holds e.tag ∧ ¬ a.Holds e'.tag)
    (run : List Inquiry) (passes : t.FirstPasses run)
    (kinds : ∀ x ∈ run, e.talks e' x.observation = true ∨ e.Unrelated e' x.observation)
    (both : ∃ o ∈ (e.talk e' run).take 2, o.showsBoth = true) :
    ∃ index direction,
      List.Forall₂ (e.Answered e' index direction) run (t.resolveAll run).2 := by
  have silent : t.Silent e e' := by
    refine ⟨reachable.exact, ?_⟩
    rintro j tag own ⟨a, there, ports, holds⟩
    have free := vacant a (List.mem_of_getElem? there) ports
    rcases own with rfl | rfl
    · exact free.1 holds
    · exact free.2 holds
  exact silent.resolveAll tagged taggedToo apart run passes kinds both

def onePort (frame : FrameNumber) (host : UInt8) (destinationTag sourceTag : UInt32) : Inquiry :=
  let own : Address := .ofOctets 10 0 0 host
  ⟨frame, false, ⟨5000, 5000, own, .ofOctets 10 0 0 9, destinationTag, sourceTag⟩⟩

/-- Both ends use one port, packets of another association come between, and one end moves. -/
def onePortRun : List Inquiry :=
  [onePort 3 1 0 7, onePort 4 5 8 0, onePort 5 2 7 6, onePort 6 1 6 0, onePort 7 5 0 8,
    onePort 8 4 7 0, onePort 9 3 6 7]

theorem one_association_on_one_port :
    let t := (empty.resolveAll [onePort 1 1 0 8, onePort 2 2 8 5]).1
    t.Reachable ∧ t.FirstPasses onePortRun ∧
      ∃ index direction,
        List.Forall₂ (Endpoint.Answered ⟨5000, 7⟩ ⟨5000, 6⟩ index direction) onePortRun
          (t.resolveAll onePortRun).2 := by
  intro t
  have reachable : t.Reachable := ⟨_, rfl⟩
  have passes : t.FirstPasses onePortRun := ⟨by decide, by decide, by decide⟩
  have vacant : ∀ a ∈ t.associations, a.ports = Endpoint.ports ⟨5000, 7⟩ ⟨5000, 6⟩ →
      ¬ a.Holds 7 ∧ ¬ a.Holds 6 := by
    intro a there _
    have tags : (a.destinationTag, a.sourceTag) ∈ [((5 : UInt32), (8 : UInt32)), (8, 5)] := by
      revert a
      decide
    simp only [Association.Holds]
    grind
  have kinds : ∀ x ∈ onePortRun,
      Endpoint.talks ⟨5000, 7⟩ ⟨5000, 6⟩ x.observation = true ∨
        Endpoint.Unrelated ⟨5000, 7⟩ ⟨5000, 6⟩ x.observation := by
    intro x there
    have shown : Endpoint.talks ⟨5000, 7⟩ ⟨5000, 6⟩ x.observation = true ∨
        (x.observation.destinationTag, x.observation.sourceTag) ∈
          [((8 : UInt32), (0 : UInt32)), (0, 8)] := by
      revert x
      decide
    refine shown.imp_right fun tags _ tag own => ?_
    simp only [List.mem_cons, Prod.mk.injEq, List.not_mem_nil, or_false] at tags own
    grind
  have both : ∃ o ∈ (Endpoint.talk ⟨5000, 7⟩ ⟨5000, 6⟩ onePortRun).take 2,
      o.showsBoth = true := by decide
  exact ⟨reachable, passes, one_association_for_both reachable ⟨5000, 7⟩ ⟨5000, 6⟩ (by decide)
    (by decide) (by decide) vacant onePortRun passes kinds both⟩

end AssociationTable

end SctpTrace
