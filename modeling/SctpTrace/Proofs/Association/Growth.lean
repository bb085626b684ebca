import SctpTrace.Proofs.Association.Index

/-!
What a packet adds to the association table. Associations keep their places and the tags that they
know, and the places listed under a tag keep their order (`Extends`). The association that a packet
is resolved to has its ports and knows the tags that it shows (`Exact.covers_assign`). An
association is read in one of two directions, and what it tells in either is its key
(`matchesIn_iff`).
-/
namespace SctpTrace

/-- Tags agree if no known tag is another one. Then a tag that both sides know decides, if no tag is
unknown to both, and otherwise the addresses have to be the same. -/
theorem TagPair.agree_iff {shown stored : TagPair} {same : Bool} :
    shown.agree stored same = true ↔
      (shown.destination = stored.destination ∨ shown.destination = 0 ∨ stored.destination = 0) ∧
        (shown.source = stored.source ∨ shown.source = 0 ∨ stored.source = 0) ∧
          (same = true ∨
            (shown.destination ≠ 0 ∨ stored.destination ≠ 0) ∧
              (shown.source ≠ 0 ∨ stored.source ≠ 0) ∧
                (shown.destination ≠ 0 ∧ stored.destination ≠ 0 ∨
                  shown.source ≠ 0 ∧ stored.source ≠ 0)) := by
  simp only [TagPair.agree, Tag.agree, Tag.confirmed, Tag.unknown]
  grind

namespace Association

def hosts (a : Association) : Direction → Address × Address
  | .forward => (a.source, a.destination)
  | .reverse => (a.destination, a.source)

/-- Read in this direction, the association has the ports of the packet and knows every tag that the
packet shows. -/
structure Covers (a : Association) (o : Observation) (direction : Direction) : Prop where
  sourcePort : (a.key direction).sourcePort = o.sourcePort
  destinationPort : (a.key direction).destinationPort = o.destinationPort
  destinationTag : o.destinationTag ≠ 0 → (a.key direction).tags.destination = o.destinationTag
  sourceTag : o.sourceTag ≠ 0 → (a.key direction).tags.source = o.sourceTag

structure Grows (a b : Association) : Prop where
  same : b = { a with destinationTag := b.destinationTag, sourceTag := b.sourceTag }
  destinationTag : a.destinationTag ≠ 0 → b.destinationTag = a.destinationTag
  sourceTag : a.sourceTag ≠ 0 → b.sourceTag = a.sourceTag

variable {a b c : Association} {o : Observation} {d : Direction} {tag : UInt32}

/- An association read in one direction. -/

theorem matchesIn_iff : a.matchesIn o d = true ↔
    o.sourcePort = (a.key d).sourcePort ∧ o.destinationPort = (a.key d).destinationPort ∧
      o.tags.agree (a.key d).tags (decide ((o.source, o.destination) = a.hosts d)) = true := by
  cases d <;>
    simp [matchesIn, matchesForward, matchesReverse, key, hosts, and_assoc, Bool.decide_and,
      beq_eq_decide]

theorem direction?_eq_some_iff : a.direction? o = some d ↔
    a.matchesIn o d = true ∧ (d = .reverse → a.matchesIn o .forward = false) := by
  unfold direction?
  cases d <;> cases forward : a.matchesForward o <;> simp [matchesIn, forward]

theorem isComplete_iff (d : Direction) : a.isComplete = true ↔
    (a.key d).tags.destination ≠ 0 ∧ (a.key d).tags.source ≠ 0 := by
  cases d <;> simp [isComplete, key, and_comm]

theorem equal_ports_iff (d : Direction) :
    (a.key d).sourcePort = (a.key d).destinationPort ↔ a.sourcePort = a.destinationPort := by
  cases d
  · exact Iff.rfl
  · exact eq_comm

theorem equal_tags_iff (d : Direction) :
    (a.key d).tags.destination = (a.key d).tags.source ↔ a.destinationTag = a.sourceTag := by
  cases d
  · exact Iff.rfl
  · exact eq_comm

theorem tags_key (same : (a.key d).tags = ⟨tag, tag⟩) (e : Direction) :
    (a.key e).tags = ⟨tag, tag⟩ := by
  cases d <;> cases e <;> simp_all [key]

theorem holds_iff (d : Direction) (known : tag ≠ 0) : a.Holds tag ↔
    (a.key d).tags.destination = tag ∨ (a.key d).tags.source = tag := by
  rw [Holds, if_neg known]
  cases d
  · exact Iff.rfl
  · exact or_comm

theorem key_learned : (AssociationTable.learned a o d).key d =
    ⟨(a.key d).sourcePort, (a.key d).destinationPort,
      ⟨if (a.key d).tags.destination = 0 then o.destinationTag else (a.key d).tags.destination,
        if (a.key d).tags.source = 0 then o.sourceTag else (a.key d).tags.source⟩⟩ := by
  cases d <;> rfl

/- An association that learns. -/

theorem Grows.refl (a : Association) : a.Grows a := ⟨rfl, fun _ => rfl, fun _ => rfl⟩

theorem Grows.trans (first : a.Grows b) (second : b.Grows c) : a.Grows c := by
  refine ⟨?_, ?_, ?_⟩
  · rw [second.same, first.same]
  · intro known
    have kept := first.destinationTag known
    rw [second.destinationTag (by rwa [kept]), kept]
  · intro known
    have kept := first.sourceTag known
    rw [second.sourceTag (by rwa [kept]), kept]

theorem Grows.complete (grows : a.Grows b) (complete : a.isComplete = true) : b = a := by
  simp only [isComplete, Bool.and_eq_true, bne_iff_ne] at complete
  rw [grows.same, grows.destinationTag complete.1, grows.sourceTag complete.2]

theorem Grows.ports (grows : a.Grows b) : b.ports = a.ports := by
  rw [grows.same]
  rfl

theorem Grows.key (grows : a.Grows b) (d : Direction) :
    (b.key d).sourcePort = (a.key d).sourcePort ∧
      (b.key d).destinationPort = (a.key d).destinationPort ∧ b.hosts d = a.hosts d ∧
      ((a.key d).tags.destination ≠ 0 →
        (b.key d).tags.destination = (a.key d).tags.destination) ∧
      ((a.key d).tags.source ≠ 0 → (b.key d).tags.source = (a.key d).tags.source) := by
  have destinationTag := grows.destinationTag
  have sourceTag := grows.sourceTag
  rw [grows.same]
  cases d
  · exact ⟨rfl, rfl, rfl, destinationTag, sourceTag⟩
  · exact ⟨rfl, rfl, rfl, sourceTag, destinationTag⟩

theorem Grows.covers (grows : a.Grows b) (covers : a.Covers o d) : b.Covers o d := by
  obtain ⟨source, destination, -, known, knownToo⟩ := grows.key d
  refine ⟨source.trans covers.sourcePort, destination.trans covers.destinationPort, ?_, ?_⟩
  · intro shown
    have own := covers.destinationTag shown
    rw [known (by rwa [own]), own]
  · intro shown
    have own := covers.sourceTag shown
    rw [knownToo (by rwa [own]), own]

theorem grows_learned : a.Grows (AssociationTable.learned a o d) := by
  refine ⟨rfl, ?_, ?_⟩
  · intro known
    simp [AssociationTable.learned, known]
  · intro known
    simp [AssociationTable.learned, known]

/- An association that knows what a packet shows. -/

theorem covers_of_key (same : a.key d = o.key) : a.Covers o d := by
  refine ⟨?_, ?_, ?_, ?_⟩ <;> simp [same, Observation.key, Observation.tags]

theorem Covers.key_eq (covers : a.Covers o d) (both : o.showsBoth = true) :
    a.key d = o.key ∧ a.isComplete = true := by
  simp only [Observation.showsBoth, Bool.and_eq_true, bne_iff_ne] at both
  obtain ⟨source, destination, shown, shownToo⟩ := covers
  have shown := shown both.1
  have shownToo := shownToo both.2
  refine ⟨?_, (isComplete_iff d).mpr ⟨shown ▸ both.1, shownToo ▸ both.2⟩⟩
  simp only [Observation.key, Observation.tags]
  rw [← source, ← destination, ← shown, ← shownToo]

theorem Covers.ports (covers : a.Covers o d) : a.ports = o.ports := by
  rw [← a.ports_key d, PairKey.ports, covers.sourcePort, covers.destinationPort]
  rfl

theorem covers_learned (matching : a.direction? o = some d) :
    (AssociationTable.learned a o d).Covers o d := by
  obtain ⟨source, destination, agree⟩ := matchesIn_iff.mp (a.matchesIn_of_direction? matching)
  rw [TagPair.agree_iff, Observation.tags] at agree
  constructor <;> rw [key_learned] <;> grind

end Association

namespace AssociationTable

variable {t t' t'' : AssociationTable} {a : Association} {o : Observation} {f : Flow}
  {frame : FrameNumber} {tag : UInt32} {i j : Nat}

/- What assigning a packet changes. -/

theorem assign_known (frame : FrameNumber) {f : Flow} (found : t.lookup? o = some f)
    (here : t.associations[f.index]? = some a) :
    (t.assign frame o).2 = f ∧
      (t.assign frame o).1.associations[f.index]? = some (learned a o f.direction) := by
  have bound := (List.getElem?_eq_some_iff.mp here).1
  simp only [AssociationTable.assign, found, Isolation.TableSim.learn_eq here, true_and]
  simp [bound]

theorem assign_new (frame : FrameNumber) (unknown : t.lookup? o = none) :
    (t.assign frame o).2 = ⟨t.associations.length, .forward⟩ ∧
      (t.assign frame o).1.associations[t.associations.length]? = some (t.fresh frame o) := by
  simp only [AssociationTable.assign, unknown, Isolation.TableSim.introduce_eq, true_and]
  simp

theorem associations_assign (other : j ≠ (t.assign frame o).2.index) :
    (t.assign frame o).1.associations[j]? = t.associations[j]? := by
  unfold AssociationTable.assign at other ⊢
  cases found : t.lookup? o with
  | none =>
    simp only [found] at other
    simp only [Isolation.TableSim.introduce_eq]
    rw [List.getElem?_append]
    split
    · rfl
    · rename_i beyond
      rw [List.getElem?_eq_none_iff.mpr (Nat.le_of_not_lt beyond), List.getElem?_eq_none_iff,
        List.length_singleton]
      omega
  | some f =>
    simp only [found] at other
    cases here : t.associations[f.index]? with
    | none => simp [AssociationTable.learn, here]
    | some a =>
      simp only [Isolation.TableSim.learn_eq here]
      rw [List.getElem?_set_ne other.symm]

theorem frames_assign :
    (t.assign frame o).1.frames = Keyed.put frame (t.assign frame o).2 t.frames := by
  unfold AssociationTable.assign
  cases t.lookup? o with
  | none => simp only [Isolation.TableSim.introduce_eq, Isolation.registered_frame]
  | some f =>
    cases here : t.associations[f.index]? with
    | none => simp only [AssociationTable.learn, here]
    | some a => simp only [Isolation.TableSim.learn_eq here, Isolation.registered_frame]

theorem mem_newTags {direction : Direction} (new : tag ∈ newTags a (learned a o direction)) :
    tag ∈ o.probes := by
  rw [Observation.mem_probes_iff]
  simp only [newTags, learned, Observation.tags, List.mem_append] at new
  cases direction <;> grind

theorem Exact.heldAt_assign (exact : t.Exact) {ports : Sym2 UInt16}
    (held : (t.assign frame o).1.HeldAt j ports tag) :
    t.HeldAt j ports tag ∨
      j = (t.assign frame o).2.index ∧ ports = o.ports ∧ tag ∈ o.probes := by
  obtain ⟨b, there, samePorts, holds⟩ := held
  by_cases own : j = (t.assign frame o).2.index
  · subst own
    cases found : t.lookup? o with
    | none =>
      obtain ⟨flow, here⟩ := assign_new frame found
      rw [flow, here] at there
      cases there
      refine Or.inr ⟨rfl, samePorts.symm, ?_⟩
      rw [Observation.mem_probes_iff]
      exact holds
    | some f =>
      obtain ⟨a, before, ports', -⟩ := exact.lookup?_sound found
      obtain ⟨flow, here⟩ := assign_known frame found before
      rw [flow, here] at there
      cases there
      rw [flow]
      rcases (holds_learned_iff (exact.blank_of_lookup? found before)).mp holds with old | new
      · exact Or.inl ⟨a, before, samePorts, old⟩
      · exact Or.inr ⟨rfl, samePorts.symm.trans ports', mem_newTags new⟩
  · rw [associations_assign own] at there
    exact Or.inl ⟨b, there, samePorts, holds⟩

theorem Exact.lookup?_cases (exact : t.Exact) (found : t.lookup? o = some f) :
    ∃ a, t.associations[f.index]? = some a ∧
      (o.showsBoth = true ∧ a.isComplete = true ∧ a.key f.direction = o.key ∨
        t.lookupPair? o = none ∧ a.direction? o = some f.direction) := by
  rw [lookup?, Option.or_eq_some_iff] at found
  rcases found with pair | ⟨absent, probes⟩
  · unfold lookupPair? at pair
    split at pair
    · rename_i both
      obtain ⟨a, there, complete, same⟩ := exact.pair _ f pair
      exact ⟨a, there, Or.inl ⟨both, complete, same⟩⟩
    · cases pair
  · obtain ⟨tag, -, single⟩ := List.exists_of_findSome?_eq_some probes
    obtain ⟨i, -, candidate⟩ := List.exists_of_findSome?_eq_some single
    simp only [candidate?, Option.bind_eq_bind, Option.bind_eq_some_iff] at candidate
    obtain ⟨a, there, direction, matching, same⟩ := candidate
    cases same
    exact ⟨a, there, Or.inr ⟨absent, matching⟩⟩

theorem covers_fresh (t : AssociationTable) (frame : FrameNumber) (o : Observation) :
    (t.fresh frame o).Covers o .forward := by
  constructor <;> simp [fresh, Association.key]

theorem Exact.covers_assign (exact : t.Exact) (frame : FrameNumber) (o : Observation) :
    ∃ a, (t.assign frame o).1.associations[(t.assign frame o).2.index]? = some a ∧
      a.Covers o (t.assign frame o).2.direction := by
  cases found : t.lookup? o with
  | none =>
    obtain ⟨flow, here⟩ := assign_new frame found
    rw [flow]
    exact ⟨_, here, covers_fresh t frame o⟩
  | some f =>
    obtain ⟨a, there, how⟩ := exact.lookup?_cases found
    obtain ⟨flow, here⟩ := assign_known frame found there
    rw [flow]
    refine ⟨_, here, ?_⟩
    rcases how with ⟨-, complete, same⟩ | ⟨-, matching⟩
    · rw [complete_learned complete]
      exact Association.covers_of_key same
    · exact Association.covers_learned matching

/-- The index by both tags changes for an association that comes to know both of its tags: it gets
the entries of both directions, whoever had them. -/
theorem Exact.pair_assign (exact : t.Exact)
    (here : (t.assign frame o).1.associations[(t.assign frame o).2.index]? = some a)
    (key : PairKey) :
    Keyed.get? key (t.assign frame o).1.pair =
      if a.isComplete = true ∧ t.associations[(t.assign frame o).2.index]? ≠ some a then
        if a.key .reverse = key then some ⟨(t.assign frame o).2.index, .reverse⟩
        else if a.key .forward = key then some ⟨(t.assign frame o).2.index, .forward⟩
        else Keyed.get? key t.pair
      else Keyed.get? key t.pair := by
  cases found : t.lookup? o with
  | none =>
    obtain ⟨flow, after⟩ := assign_new frame found
    rw [flow, after] at here
    cases here
    have unknown : t.associations[t.associations.length]? = none := by simp
    have index : (t.fresh frame o).index = t.associations.length := rfl
    rw [flow]
    simp only [AssociationTable.assign, found, Isolation.TableSim.introduce_eq, unknown,
      get?_pair_registered, index]
    cases (t.fresh frame o).isComplete <;> simp
  | some f =>
    obtain ⟨b, before, -⟩ := exact.lookup?_cases found
    obtain ⟨flow, after⟩ := assign_known frame found before
    rw [flow, after] at here
    cases here
    have index : b.index = f.index := exact.numbered _ b before
    have same : (learned b o f.direction).index = f.index := index
    rw [flow]
    simp only [AssociationTable.assign, found, Isolation.TableSim.learn_eq before, before,
      get?_pair_registered, same]
    cases complete : b.isComplete with
    | true => simp [complete_learned complete]
    | false =>
      have changed : (learned b o f.direction).isComplete = true → b ≠ learned b o f.direction := by
        intro now same
        rw [← same, complete] at now
        cases now
      cases now : (learned b o f.direction).isComplete with
      | false => simp
      | true => simp [changed now]

theorem Exact.pair_assign_cases (exact : t.Exact)
    (here : (t.assign frame o).1.associations[(t.assign frame o).2.index]? = some a)
    {key : PairKey} (found : Keyed.get? key (t.assign frame o).1.pair = some f) :
    f.index = (t.assign frame o).2.index ∧ a.key f.direction = key ∧ a.isComplete = true ∧
        t.associations[(t.assign frame o).2.index]? ≠ some a ∧
        (a.key .reverse = key → f.direction = .reverse) ∨
      Keyed.get? key t.pair = some f ∧ (a.isComplete = true → (∃ d, a.key d = key) →
        t.associations[(t.assign frame o).2.index]? = some a) := by
  rw [exact.pair_assign here] at found
  split at found
  · rename_i new
    split at found
    · rename_i own
      cases found
      exact Or.inl ⟨rfl, own, new.1, new.2, fun _ => rfl⟩
    · rename_i notReverse
      split at found
      · rename_i own
        cases found
        exact Or.inl ⟨rfl, own, new.1, new.2, fun reverse => absurd reverse notReverse⟩
      · rename_i notForward
        refine Or.inr ⟨found, ?_⟩
        rintro - ⟨d, own⟩
        cases d
        · exact absurd own notForward
        · exact absurd own notReverse
  · rename_i kept
    exact Or.inr ⟨found, fun complete _ =>
      Classical.not_not.mp fun changed => kept ⟨complete, changed⟩⟩

structure Extends (t t' : AssociationTable) : Prop where
  associations : ∀ (i : Nat) (a : Association), t.associations[i]? = some a →
    ∃ b, t'.associations[i]? = some b ∧ a.Grows b
  buckets : ∀ key, t.bucket key <+: t'.bucket key

theorem Extends.refl (t : AssociationTable) : t.Extends t :=
  ⟨fun _ a there => ⟨a, there, .refl a⟩, fun _ => List.prefix_rfl⟩

theorem Extends.trans (first : t.Extends t') (second : t'.Extends t'') : t.Extends t'' := by
  refine ⟨?_, fun key => (first.buckets key).trans (second.buckets key)⟩
  intro i a there
  obtain ⟨b, now, grows⟩ := first.associations i a there
  obtain ⟨c, later, growsToo⟩ := second.associations i b now
  exact ⟨c, later, grows.trans growsToo⟩

theorem prefix_registered (tags : List UInt32) (both : Bool) (key : SingleKey) :
    t.bucket key <+: (Isolation.registered t a tags both).bucket key := by
  rw [bucket_registered]
  induction tags generalizing t with
  | nil => exact List.prefix_rfl
  | cons first rest ih =>
    refine List.IsPrefix.trans ?_ ih
    rw [bucket_registerSingle]
    split
    · split
      · exact List.prefix_rfl
      · exact List.prefix_append _ _
    · exact List.prefix_rfl

theorem extends_assign (t : AssociationTable) (frame : FrameNumber) (o : Observation) :
    t.Extends (t.assign frame o).1 := by
  constructor
  · intro i a there
    by_cases other : i = (t.assign frame o).2.index
    · cases found : t.lookup? o with
      | none =>
        rw [(assign_new frame found).1] at other
        exact absurd other (Nat.ne_of_lt (List.getElem?_eq_some_iff.mp there).1)
      | some f =>
        have flow : (t.assign frame o).2 = f := by
          simp only [AssociationTable.assign, found]
        rw [flow] at other
        subst other
        exact ⟨_, (assign_known frame found there).2, Association.grows_learned⟩
    · exact ⟨a, (associations_assign other).trans there, .refl a⟩
  · intro key
    unfold AssociationTable.assign
    cases t.lookup? o with
    | none =>
      simp only [Isolation.TableSim.introduce_eq]
      exact prefix_registered _ _ key
    | some f =>
      cases here : t.associations[f.index]? with
      | none =>
        simp only [AssociationTable.learn, here]
        exact List.prefix_rfl
      | some a =>
        simp only [Isolation.TableSim.learn_eq here]
        exact prefix_registered _ _ key

theorem resolve_cases (t : AssociationTable) (frame : FrameNumber) (visited : Bool)
    (o : Observation) :
    (t.resolve frame visited o).1 = t ∨
      Keyed.get? frame t.frames = none ∧ (t.resolve frame visited o).1 = (t.assign frame o).1 := by
  unfold resolve
  cases known : Keyed.get? frame t.frames with
  | some f => exact Or.inl rfl
  | none =>
    cases visited with
    | true => exact Or.inl rfl
    | false => exact Or.inr ⟨rfl, rfl⟩

theorem resolve_new (new : Keyed.get? frame t.frames = none) (o : Observation) :
    t.resolve frame false o = ((t.assign frame o).1, some (t.assign frame o).2) := by
  rw [resolve, new]
  rfl

theorem resolveAll_induction {P : AssociationTable → Prop} (run : List Inquiry)
    (step : ∀ t, ∀ x ∈ run, Keyed.get? x.frame t.frames = none → P t →
      P (t.assign x.frame x.observation).1)
    (start : P t) : P (t.resolveAll run).1 := by
  induction run generalizing t with
  | nil => exact start
  | cons x rest ih =>
    have next : P (t.resolve x.frame x.visited x.observation).1 := by
      rcases t.resolve_cases x.frame x.visited x.observation with same | ⟨new, same⟩
      · rw [same]
        exact start
      · rw [same]
        exact step t x List.mem_cons_self new start
    exact ih (fun t y there => step t y (List.mem_cons_of_mem _ there)) next

theorem resolveAll_append (run rest : List Inquiry) :
    (t.resolveAll (run ++ rest)).1 = ((t.resolveAll run).1.resolveAll rest).1 := by
  induction run generalizing t with
  | nil => rfl
  | cons x run ih => exact ih

theorem Reachable.resolveAll (reachable : t.Reachable) (run : List Inquiry) :
    (t.resolveAll run).1.Reachable := by
  obtain ⟨history, rfl⟩ := reachable
  exact ⟨history ++ run, (resolveAll_append history run).symm⟩

theorem Reachable.resolve (reachable : t.Reachable) (frame : FrameNumber) (visited : Bool)
    (o : Observation) : (t.resolve frame visited o).1.Reachable :=
  reachable.resolveAll [⟨frame, visited, o⟩]

theorem extends_resolveAll (t : AssociationTable) (run : List Inquiry) :
    t.Extends (t.resolveAll run).1 :=
  resolveAll_induction run
    (fun _ x _ _ before => before.trans (extends_assign _ x.frame x.observation)) (.refl t)

end AssociationTable

end SctpTrace
