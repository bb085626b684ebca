import SctpTrace.Proofs.Isolation.Table

/-!
The two indexes of the association table. In every table that packets lead to they are exact
(`Reachable.exact`): a tag leads to the associations that hold it, both tags of an association lead
to it in either direction, and nothing else is listed.
-/
namespace SctpTrace

/-- Tag zero is held by an association that knows neither tag. -/
def Association.Holds (a : Association) (tag : UInt32) : Prop :=
  if tag = 0 then a.destinationTag = 0 ∧ a.sourceTag = 0
  else a.destinationTag = tag ∨ a.sourceTag = tag

structure Inquiry where
  frame : FrameNumber
  visited : Bool
  observation : Observation
  deriving DecidableEq, Repr

variable {a b : Association} {o : Observation} {tag : UInt32}

theorem SingleKey.of_eq_of_iff {p q p' q' : UInt16} {tag tag' : UInt32} :
    SingleKey.of p q tag = SingleKey.of p' q' tag' ↔ s(p, q) = s(p', q') ∧ tag = tag' := by
  simp only [SingleKey.of, Sym2.eq_iff, UInt16.le_iff_toNat_le]
  constructor
  · intro same
    split at same <;> split at same <;> cases same <;> simp
  · rintro ⟨⟨rfl, rfl⟩ | ⟨rfl, rfl⟩, rfl⟩
    · rfl
    · rcases Nat.lt_trichotomy p.toNat q.toNat with less | same | more
      · rw [if_pos (by omega), if_neg (by omega)]
      · rw [UInt16.toNat.inj same]
      · rw [if_neg (by omega), if_pos (by omega)]

theorem Observation.mem_probes_iff :
    tag ∈ o.probes ↔ if tag = 0 then o.destinationTag = 0 ∧ o.sourceTag = 0
      else o.destinationTag = tag ∨ o.sourceTag = tag := by
  unfold Observation.probes
  split <;> split <;> grind

theorem Association.holds_of_key {direction : Direction} (complete : a.isComplete = true)
    (same : a.key direction = o.key) : a.ports = o.ports ∧ ∃ tag ∈ o.probes, a.Holds tag := by
  have ports := (a.ports_key direction).symm.trans (congrArg PairKey.ports same)
  refine ⟨ports, o.destinationTag, ?_, ?_⟩
  all_goals
    simp only [Association.isComplete, Bool.and_eq_true, bne_iff_ne] at complete
    cases direction <;>
      simp only [Association.key, Observation.key, Observation.tags, PairKey.mk.injEq,
        TagPair.mk.injEq] at same <;>
      grind [Observation.mem_probes_iff, Association.Holds]

namespace AssociationTable

variable {t : AssociationTable} {p q : UInt16} {i : Nat} {f : Flow} {frame : FrameNumber}

def HeldAt (t : AssociationTable) (i : Nat) (ports : Sym2 UInt16) (tag : UInt32) : Prop :=
  ∃ a, t.associations[i]? = some a ∧ a.ports = ports ∧ a.Holds tag

structure Exact (t : AssociationTable) : Prop where
  numbered : ∀ (i : Nat) (a : Association), t.associations[i]? = some a → a.index = i
  single : ∀ p q tag i, i ∈ t.bucket (.of p q tag) ↔ t.HeldAt i s(p, q) tag
  once : ∀ key, (t.bucket key).Nodup
  pair : ∀ key f, Keyed.get? key t.pair = some f →
    ∃ a : Association, t.associations[f.index]? = some a ∧ a.isComplete = true ∧
      a.key f.direction = key
  both : ∀ (i : Nat) (a : Association), t.associations[i]? = some a → a.isComplete = true →
    ∀ direction, (Keyed.get? (a.key direction) t.pair).isSome = true

def resolveAll : AssociationTable → List Inquiry → AssociationTable × List (Option Flow)
  | t, [] => (t, [])
  | t, x :: rest =>
    let (t, flow) := t.resolve x.frame x.visited x.observation
    let (t, flows) := resolveAll t rest
    (t, flow :: flows)

def Reachable (t : AssociationTable) : Prop :=
  ∃ history : List Inquiry, t = (empty.resolveAll history).1

theorem resolveAll_cons (x : Inquiry) (rest : List Inquiry) :
    t.resolveAll (x :: rest) =
      (((t.resolve x.frame x.visited x.observation).1.resolveAll rest).1,
        (t.resolve x.frame x.visited x.observation).2 ::
          ((t.resolve x.frame x.visited x.observation).1.resolveAll rest).2) := rfl

/- Registering an association under some tags. -/

theorem bucket_registered (tags : List UInt32) (both : Bool) :
    (Isolation.registered t a tags both).bucket =
      (tags.foldl (fun t tag => t.registerSingle a tag) t).bucket := by
  cases both <;> rfl

theorem mem_bucket_registered {tags : List UInt32} {both : Bool} :
    i ∈ (Isolation.registered t a tags both).bucket (.of p q tag) ↔
      i ∈ t.bucket (.of p q tag) ∨ i = a.index ∧ a.ports = s(p, q) ∧ tag ∈ tags := by
  rw [bucket_registered]
  induction tags generalizing t with
  | nil => simp
  | cons first rest ih =>
    rw [List.foldl_cons]
    refine ih.trans ?_
    have own : SingleKey.of a.sourcePort a.destinationPort first = .of p q tag ↔
        a.ports = s(p, q) ∧ first = tag := SingleKey.of_eq_of_iff
    rw [bucket_registerSingle]
    split
    · split <;> grind
    · grind

theorem nodup_bucket_registered {tags : List UInt32} {both : Bool}
    (once : ∀ key, (t.bucket key).Nodup) (key : SingleKey) :
    ((Isolation.registered t a tags both).bucket key).Nodup := by
  rw [bucket_registered]
  induction tags generalizing t with
  | nil => exact once key
  | cons first rest ih =>
    rw [List.foldl_cons]
    apply ih
    intro key
    rw [bucket_registerSingle]
    split
    · split
      · exact once key
      · rename_i absent
        rw [List.nodup_append]
        refine ⟨once key, List.nodup_singleton _, ?_⟩
        intro j there k last same
        rw [List.mem_singleton] at last
        rw [← same.trans last] at absent
        exact absent there
    · exact once key

theorem get?_pair_registered {tags : List UInt32} {both : Bool} (key : PairKey) :
    Keyed.get? key (Isolation.registered t a tags both).pair =
      if both = true ∧ a.key .reverse = key then some ⟨a.index, .reverse⟩
      else if both = true ∧ a.key .forward = key then some ⟨a.index, .forward⟩
      else Keyed.get? key t.pair := by
  obtain ⟨-, pair, -⟩ := registerTags_frame (t := t) (a := a) tags
  cases both with
  | false => simp [Isolation.registered, pair]
  | true => simp [Isolation.registered, get?_registerPair, pair]

/- Adding an association, or filling in its tags, keeps the indexes exact. -/

theorem exact_empty : Exact empty := by
  refine ⟨?_, ?_, ?_, ?_, ?_⟩
  · intro i a absent
    cases absent
  · intro p q tag i
    simp [bucket, HeldAt, empty]
  · intro key
    simp [bucket, empty]
  · intro key f absent
    cases absent
  · intro i a absent
    cases absent

theorem Exact.pair_registered {l : List Association} {tags : List UInt32} {both : Bool}
    (exact : t.Exact) (here : l[a.index]? = some a) (complete : both = true → a.isComplete = true)
    (kept : ∀ (i : Nat) (b : Association), t.associations[i]? = some b → b.isComplete = true →
      l[i]? = some b)
    (key : PairKey) (f : Flow)
    (found : Keyed.get? key (Isolation.registered t a tags both).pair = some f) :
    ∃ b : Association, l[f.index]? = some b ∧ b.isComplete = true ∧ b.key f.direction = key := by
  rw [get?_pair_registered] at found
  split at found
  · rename_i own
    cases found
    exact ⟨a, here, complete own.1, own.2⟩
  · split at found
    · rename_i own
      cases found
      exact ⟨a, here, complete own.1, own.2⟩
    · obtain ⟨b, there, known, same⟩ := exact.pair key f found
      exact ⟨b, kept _ b there known, known, same⟩

theorem isSome_pair_registered {tags : List UInt32} {both : Bool} {key : PairKey}
    (known : (∃ direction, both = true ∧ a.key direction = key) ∨
      (Keyed.get? key t.pair).isSome = true) :
    (Keyed.get? key (Isolation.registered t a tags both).pair).isSome = true := by
  rw [get?_pair_registered]
  split
  · rfl
  · split
    · rfl
    · rename_i notReverse notForward
      rcases known with ⟨direction, own⟩ | old
      · cases direction
        · exact absurd own notForward
        · exact absurd own notReverse
      · exact old

theorem Exact.introduce (exact : t.Exact) (frame : FrameNumber) (o : Observation) :
    (t.introduce frame o).Exact := by
  have tags : ∀ tag, (t.fresh frame o).Holds tag ↔ tag ∈ o.probes := by
    intro tag
    rw [Observation.mem_probes_iff]
    rfl
  have old : ∀ (i : Nat) (b : Association), t.associations[i]? = some b →
      (t.associations ++ [t.fresh frame o])[i]? = some b := by
    intro i b there
    rw [List.getElem?_append_left (List.getElem?_eq_some_iff.mp there).1]
    exact there
  have new : (t.associations ++ [t.fresh frame o])[t.associations.length]? =
      some (t.fresh frame o) := by simp
  have only : ∀ (i : Nat) (b : Association), (t.associations ++ [t.fresh frame o])[i]? = some b →
      t.associations[i]? = some b ∨ i = t.associations.length ∧ b = t.fresh frame o := by
    intro i b there
    rw [List.getElem?_append] at there
    split at there
    · exact Or.inl there
    · obtain ⟨last, same⟩ := List.getElem?_eq_some_iff.mp there
      simp only [List.length_singleton] at last
      simp only [List.getElem_singleton] at same
      exact Or.inr ⟨by omega, same.symm⟩
  rw [Isolation.TableSim.introduce_eq]
  refine ⟨?_, ?_, nodup_bucket_registered exact.once, ?_, ?_⟩
  · intro i b there
    rcases only i b there with before | ⟨rfl, rfl⟩
    · exact exact.numbered i b before
    · rfl
  · intro p q tag i
    refine mem_bucket_registered.trans ?_
    rw [exact.single, ← tags]
    constructor
    · rintro (⟨b, there, held⟩ | ⟨rfl, held⟩)
      · exact ⟨b, old i b there, held⟩
      · exact ⟨_, new, held⟩
    · rintro ⟨b, there, held⟩
      rcases only i b there with before | ⟨rfl, rfl⟩
      · exact Or.inl ⟨b, before, held⟩
      · exact Or.inr ⟨rfl, held⟩
  · exact exact.pair_registered new id fun i b there _ => old i b there
  · intro i b there complete direction
    apply isSome_pair_registered
    rcases only i b there with before | ⟨-, rfl⟩
    · exact Or.inr (exact.both i b before complete direction)
    · exact Or.inl ⟨direction, complete, rfl⟩

theorem complete_learned {direction : Direction} (complete : a.isComplete = true) :
    learned a o direction = a := by
  simp only [Association.isComplete, Bool.and_eq_true, bne_iff_ne] at complete
  cases direction <;> simp [learned, complete]

/-- Learning adds the new tags; a blank association learns nothing from a blank packet. -/
theorem holds_learned_iff {direction : Direction}
    (blank : a.Holds 0 → o.destinationTag = 0 ∧ o.sourceTag = 0) :
    (learned a o direction).Holds tag ↔
      a.Holds tag ∨ tag ∈ newTags a (learned a o direction) := by
  simp only [Association.Holds, learned, newTags, Observation.tags, List.mem_append] at blank ⊢
  cases direction <;> grind

theorem Exact.learn (exact : t.Exact) (found : t.associations[f.index]? = some a)
    (blank : a.Holds 0 → o.destinationTag = 0 ∧ o.sourceTag = 0) : (t.learn f o).Exact := by
  have index : a.index = f.index := exact.numbered _ a found
  have bound := (List.getElem?_eq_some_iff.mp found).1
  have here : (t.associations.set f.index (learned a o f.direction))[f.index]? =
      some (learned a o f.direction) := by simp [bound]
  have other : ∀ i, i ≠ f.index →
      (t.associations.set f.index (learned a o f.direction))[i]? = t.associations[i]? := by
    intro i different
    rw [List.getElem?_set_ne different.symm]
  rw [Isolation.TableSim.learn_eq found]
  -- Only the association at `f.index` changed, so elsewhere the old facts carry over.
  refine ⟨?_, ?_, nodup_bucket_registered exact.once, ?_, ?_⟩
  · intro i b there
    change (t.associations.set f.index (learned a o f.direction))[i]? = some b at there
    by_cases same : i = f.index
    · rw [same, here] at there
      cases there
      exact index.trans same.symm
    · rw [other i same] at there
      exact exact.numbered i b there
  · intro p q tag i
    refine mem_bucket_registered.trans ?_
    rw [exact.single]
    change _ ↔ ∃ b, (t.associations.set f.index (learned a o f.direction))[i]? = some b ∧ _
    change _ ∨ i = a.index ∧ a.ports = s(p, q) ∧ _ ↔ _
    by_cases same : i = f.index
    · subst same
      rw [here]
      simp only [HeldAt, found, index, Option.some.injEq, exists_eq_left', true_and,
        holds_learned_iff blank]
      change _ ↔ a.ports = s(p, q) ∧ _
      rw [and_or_left]
    · rw [other i same, index]
      simp [HeldAt, same]
  · refine exact.pair_registered (a := learned a o f.direction) ?_ ?_ ?_
    · change (t.associations.set f.index (learned a o f.direction))[a.index]? = _
      rw [index]
      exact here
    · intro both
      exact (Bool.and_eq_true_iff.mp both).1
    · intro i b there complete
      change (t.associations.set f.index (learned a o f.direction))[i]? = _
      by_cases same : i = f.index
      · subst same
        rw [found] at there
        cases there
        rw [here, complete_learned complete]
      · rw [other i same]
        exact there
  · intro i b there complete direction
    change (t.associations.set f.index (learned a o f.direction))[i]? = some b at there
    apply isSome_pair_registered
    by_cases same : i = f.index
    · subst same
      rw [here] at there
      cases there
      cases before : a.isComplete with
      | true =>
        rw [complete_learned before]
        exact Or.inr (exact.both _ a found before direction)
      | false => exact Or.inl ⟨direction, by simp [complete], rfl⟩
    · rw [other i same] at there
      exact Or.inr (exact.both i b there complete direction)

/- Looking up in exact indexes. -/

theorem Exact.lookup?_sound (exact : t.Exact) (found : t.lookup? o = some f) :
    ∃ a, t.associations[f.index]? = some a ∧ a.ports = o.ports ∧
      ∃ tag ∈ o.probes, a.Holds tag := by
  rw [lookup?, Option.or_eq_some_iff] at found
  rcases found with pair | ⟨-, probes⟩
  · unfold lookupPair? at pair
    split at pair
    · obtain ⟨a, there, complete, same⟩ := exact.pair _ f pair
      obtain ⟨ports, held⟩ := Association.holds_of_key complete same
      exact ⟨a, there, ports, held⟩
    · cases pair
  · obtain ⟨tag, probed, single⟩ := List.exists_of_findSome?_eq_some probes
    obtain ⟨i, listed, candidate⟩ := List.exists_of_findSome?_eq_some single
    obtain ⟨a, there, ports, held⟩ := (exact.single _ _ _ _).mp listed
    simp only [candidate?, there, Option.bind_eq_bind, Option.bind_some,
      Option.bind_eq_some_iff] at candidate
    obtain ⟨direction, -, same⟩ := candidate
    cases same
    exact ⟨a, there, ports, tag, probed, held⟩

theorem Exact.blank_of_lookup? (exact : t.Exact) (found : t.lookup? o = some f)
    (here : t.associations[f.index]? = some a) (blank : a.Holds 0) :
    o.destinationTag = 0 ∧ o.sourceTag = 0 := by
  obtain ⟨b, there, -, tag, probed, held⟩ := exact.lookup?_sound found
  rw [here] at there
  cases there
  rw [Observation.mem_probes_iff] at probed
  unfold Association.Holds at held blank
  grind

theorem Exact.assign (exact : t.Exact) : (t.assign frame o).1.Exact := by
  unfold AssociationTable.assign
  cases found : t.lookup? o with
  | none =>
    have after := exact.introduce frame o
    exact ⟨after.numbered, after.single, after.once, after.pair, after.both⟩
  | some f =>
    obtain ⟨a, here, -⟩ := exact.lookup?_sound found
    have after := exact.learn here (exact.blank_of_lookup? found here)
    exact ⟨after.numbered, after.single, after.once, after.pair, after.both⟩

theorem Exact.resolve (exact : t.Exact) (visited : Bool) :
    (t.resolve frame visited o).1.Exact := by
  unfold AssociationTable.resolve
  split
  · exact exact
  · split
    · exact exact
    · exact exact.assign

theorem Exact.resolveAll (exact : t.Exact) (run : List Inquiry) : (t.resolveAll run).1.Exact := by
  induction run generalizing t with
  | nil => exact exact
  | cons x rest ih => exact ih (exact.resolve x.visited)

theorem Reachable.exact (reachable : t.Reachable) : t.Exact := by
  obtain ⟨history, rfl⟩ := reachable
  exact exact_empty.resolveAll history

theorem Exact.lookup?_eq_none (exact : t.Exact)
    (absent : ∀ tag ∈ o.probes, ∀ i, ¬ t.HeldAt i o.ports tag) : t.lookup? o = none := by
  cases found : t.lookup? o with
  | none => rfl
  | some f =>
    obtain ⟨a, here, ports, tag, probed, held⟩ := exact.lookup?_sound found
    exact absurd ⟨a, here, ports, held⟩ (absent tag probed f.index)

theorem findSome?_eq_some_of_only {α β : Type} {g : α → Option β} {l : List α} {x : α} {y : β}
    (member : x ∈ l) (here : g x = some y) (only : ∀ z ∈ l, g z = none ∨ g z = some y) :
    l.findSome? g = some y := by
  induction l with
  | nil => cases member
  | cons first rest ih =>
    rw [List.findSome?_cons]
    rcases only first List.mem_cons_self with nothing | found
    · rw [nothing]
      rcases List.mem_cons.mp member with rfl | later
      · rw [nothing] at here
        cases here
      · exact ih later fun z there => only z (List.mem_cons_of_mem _ there)
    · rw [found]

theorem Exact.lookup?_eq_some (exact : t.Exact) {direction : Direction}
    (here : t.associations[i]? = some a) (ports : a.ports = o.ports)
    (held : ∃ tag ∈ o.probes, a.Holds tag)
    (only : ∀ tag ∈ o.probes, ∀ j, t.HeldAt j o.ports tag → j = i)
    (matching : a.direction? o = some direction)
    (oriented : ∀ other, a.key other = o.key → other = direction) :
    t.lookup? o = some ⟨i, direction⟩ := by
  obtain ⟨tag, probed, holds⟩ := held
  have candidate : t.candidate? o i = some ⟨i, direction⟩ := by
    simp [candidate?, here, matching]
  have listed : ∀ tag ∈ o.probes, ∀ j ∈ t.bucket (.of o.sourcePort o.destinationPort tag),
      j = i := by
    intro tag probed j member
    exact only tag probed j ((exact.single _ _ _ _).mp member)
  have single : t.lookupSingle? o tag = some ⟨i, direction⟩ := by
    have member := (exact.single o.sourcePort o.destinationPort tag i).mpr ⟨a, here, ports, holds⟩
    refine findSome?_eq_some_of_only member candidate ?_
    intro j member
    rw [listed tag probed j member]
    exact Or.inr candidate
  have probes : o.probes.findSome? (t.lookupSingle? o) = some ⟨i, direction⟩ := by
    refine findSome?_eq_some_of_only probed single ?_
    intro other otherProbed
    cases found : t.lookupSingle? o other with
    | none => exact Or.inl rfl
    | some g =>
      obtain ⟨j, member, there⟩ := List.exists_of_findSome?_eq_some found
      rw [listed other otherProbed j member, candidate] at there
      exact Or.inr there.symm
  rw [lookup?]
  cases pair : t.lookupPair? o with
  | none => exact probes
  | some g =>
    unfold lookupPair? at pair
    split at pair
    · obtain ⟨b, there, complete, same⟩ := exact.pair _ g pair
      obtain ⟨portsToo, other, otherProbed, holdsToo⟩ := Association.holds_of_key complete same
      have place := only other otherProbed g.index ⟨b, there, portsToo, holdsToo⟩
      rw [place, here] at there
      cases there
      have way := oriented g.direction same
      cases g
      simp_all
    · cases pair

end AssociationTable

end SctpTrace
