import Mathlib.Data.Sym.Sym2
import SctpTrace.Association.Table
import SctpTrace.Proofs.Isolation.Embedding

/-!
The association table under the traffic of some port pairs, with and without other traffic. A packet
on one of the pairs finds or adds the same association in both tables, at related places; a packet on
another pair changes nothing that the pairs see.
-/
namespace SctpTrace

/- Ports without regard to direction. -/

def Association.ports (a : Association) : Sym2 UInt16 := s(a.sourcePort, a.destinationPort)

def Observation.ports (o : Observation) : Sym2 UInt16 := s(o.sourcePort, o.destinationPort)

def SingleKey.ports (key : SingleKey) : Sym2 UInt16 := s(key.lowPort, key.highPort)

def PairKey.ports (key : PairKey) : Sym2 UInt16 := s(key.sourcePort, key.destinationPort)

theorem SingleKey.ports_of (p q : UInt16) (tag : UInt32) : (SingleKey.of p q tag).ports = s(p, q) := by
  unfold SingleKey.of
  split
  · rfl
  · exact Sym2.eq_swap

theorem Association.ports_key (a : Association) (direction : Direction) :
    (a.key direction).ports = a.ports := by
  cases direction
  · rfl
  · exact Sym2.eq_swap

theorem Association.ports_of_direction? {a : Association} {o : Observation} {direction : Direction}
    (found : a.direction? o = some direction) : a.ports = o.ports := by
  have agrees := a.matchesIn_of_direction? found
  cases direction with
  | forward =>
    simp only [matchesIn, matchesForward, Bool.and_eq_true, beq_iff_eq] at agrees
    rw [ports, Observation.ports, agrees.1.1, agrees.1.2]
  | reverse =>
    simp only [matchesIn, matchesReverse, Bool.and_eq_true, beq_iff_eq] at agrees
    rw [ports, Observation.ports, agrees.1.1, agrees.1.2]
    exact Sym2.eq_swap

namespace AssociationTable

variable {t : AssociationTable} {a : Association} {o : Observation}

theorem bucket_registerSingle (tag : UInt32) (key : SingleKey) :
    (t.registerSingle a tag).bucket key =
      if SingleKey.of a.sourcePort a.destinationPort tag = key then
        if a.index ∈ t.bucket key then t.bucket key else t.bucket key ++ [a.index]
      else t.bucket key := by
  simp only [bucket, registerSingle, Keyed.get?_put]
  split
  · rename_i same
    subst same
    rfl
  · rfl

theorem get?_registerPair (key : PairKey) :
    Keyed.get? key (t.registerPair a).pair =
      if a.key .reverse = key then some ⟨a.index, .reverse⟩
      else if a.key .forward = key then some ⟨a.index, .forward⟩
      else Keyed.get? key t.pair := by
  simp only [registerPair, Keyed.get?_put]

theorem registerTags_frame (tags : List UInt32) :
    let after := tags.foldl (fun t tag => t.registerSingle a tag) t
    after.associations = t.associations ∧ after.pair = t.pair ∧ after.frames = t.frames := by
  induction tags generalizing t with
  | nil => exact ⟨rfl, rfl, rfl⟩
  | cons tag rest ih => exact ih (t := t.registerSingle a tag)

end AssociationTable

namespace Isolation

def FlowAt (places : List Nat) (f g : Flow) : Prop :=
  At places f.index g.index ∧ g.direction = f.direction

def AssociationAt (places : List Nat) (a b : Association) : Prop :=
  At places a.index b.index ∧ b = { a with index := b.index }

def Foreign (places : List Nat) (bound : Nat) (g : Flow) : Prop :=
  g.index < bound ∧ g.index ∉ places

structure Indexed (S : Set (Sym2 UInt16)) (places : List Nat) (small big : AssociationTable) :
    Prop where
  single : ∀ key, key.ports ∈ S → List.Forall₂ (At places) (small.bucket key) (big.bucket key)
  pair : ∀ key, key.ports ∈ S →
    Option.Rel (FlowAt places) (Keyed.get? key small.pair) (Keyed.get? key big.pair)

/-- The smaller table is the part of the larger one that belongs to the pairs in `S`; `own` are the
frames on these pairs. -/
structure TableSim (S : Set (Sym2 UInt16)) (own : FrameNumber → Prop) (places : List Nat)
    (small big : AssociationTable) : Prop where
  members : Embeds (AssociationAt places) (fun a => a.ports ∈ S) places small.associations
    big.associations
  numbered : ∀ i (b : Association), big.associations[i]? = some b → b.index = i
  indexed : Indexed S places small big
  frames : ∀ frame, own frame →
    Option.Rel (FlowAt places) (Keyed.get? frame small.frames) (Keyed.get? frame big.frames)
  foreignPair : ∀ key g, key.ports ∉ S → Keyed.get? key big.pair = some g →
    Foreign places big.associations.length g
  foreignFrame : ∀ frame g, ¬ own frame → Keyed.get? frame big.frames = some g →
    Foreign places big.associations.length g

variable {S : Set (Sym2 UInt16)} {own : FrameNumber → Prop} {places : List Nat}
  {small big : AssociationTable} {a b : Association} {o : Observation} {f g : Flow}
  {frame : FrameNumber} {bound n : Nat}

theorem FlowAt.append (same : FlowAt places f g) (more : List Nat) : FlowAt (places ++ more) f g :=
  ⟨same.1.append more, same.2⟩

theorem rel_append {x y : Option Flow} (same : Option.Rel (FlowAt places) x y) (more : List Nat) :
    Option.Rel (FlowAt (places ++ more)) x y := by
  cases same with
  | none => exact .none
  | some here => exact .some (here.append more)

theorem Foreign.append (foreign : Foreign places bound g) :
    Foreign (places ++ [bound]) (bound + 1) g := by
  refine ⟨Nat.lt_succ_of_lt foreign.1, ?_⟩
  rw [List.mem_append, List.mem_singleton, not_or]
  exact ⟨foreign.2, Nat.ne_of_lt foreign.1⟩

theorem Foreign.mono (foreign : Foreign places bound g) (more : bound ≤ n) : Foreign places n g :=
  ⟨Nat.lt_of_lt_of_le foreign.1 more, foreign.2⟩

theorem tableSim_empty (S : Set (Sym2 UInt16)) (own : FrameNumber → Prop) :
    TableSim S own [] .empty .empty := by
  refine ⟨.nil _ _, ?_, ⟨fun _ _ => .nil, fun _ _ => .none⟩, fun _ _ => .none, ?_, ?_⟩
  · intro i b found
    cases found
  · intro key g _ found
    cases found
  · intro frame g _ found
    cases found

namespace Indexed

theorem append (indexed : Indexed S places small big) (more : List Nat) :
    Indexed S (places ++ more) small big :=
  ⟨fun key inside => (indexed.single key inside).imp fun _ _ there => there.append more,
    fun key inside => rel_append (indexed.pair key inside) more⟩

theorem registerSingle (indexed : Indexed S places small big)
    (increasing : places.Pairwise (· < ·)) (same : AssociationAt places a b) (tag : UInt32) :
    Indexed S places (small.registerSingle a tag) (big.registerSingle b tag) := by
  refine ⟨?_, indexed.pair⟩
  intro key inside
  have here := indexed.single key inside
  have known := at_mem_iff increasing here same.1
  have ports : SingleKey.of b.sourcePort b.destinationPort tag =
      SingleKey.of a.sourcePort a.destinationPort tag := by rw [same.2]
  rw [AssociationTable.bucket_registerSingle, AssociationTable.bucket_registerSingle, ports]
  split
  · by_cases old : a.index ∈ small.bucket key
    · rw [if_pos old, if_pos (known.mp old)]
      exact here
    · rw [if_neg old, if_neg (mt known.mpr old)]
      exact List.rel_append here (.cons same.1 .nil)
  · exact here

theorem registerSingle_other (indexed : Indexed S places small big) (outside : b.ports ∉ S)
    (tag : UInt32) : Indexed S places small (big.registerSingle b tag) := by
  refine ⟨?_, indexed.pair⟩
  intro key inside
  have apart : SingleKey.of b.sourcePort b.destinationPort tag ≠ key := by
    rintro rfl
    rw [SingleKey.ports_of] at inside
    exact outside inside
  rw [AssociationTable.bucket_registerSingle, if_neg apart]
  exact indexed.single key inside

theorem registerTags (indexed : Indexed S places small big)
    (increasing : places.Pairwise (· < ·)) (same : AssociationAt places a b) (tags : List UInt32) :
    Indexed S places (tags.foldl (fun t tag => t.registerSingle a tag) small)
      (tags.foldl (fun t tag => t.registerSingle b tag) big) := by
  induction tags generalizing small big with
  | nil => exact indexed
  | cons tag rest ih => exact ih (indexed.registerSingle increasing same tag)

theorem registerTags_other (indexed : Indexed S places small big) (outside : b.ports ∉ S)
    (tags : List UInt32) :
    Indexed S places small (tags.foldl (fun t tag => t.registerSingle b tag) big) := by
  induction tags generalizing big with
  | nil => exact indexed
  | cons tag rest ih => exact ih (indexed.registerSingle_other outside tag)

theorem registerPair (indexed : Indexed S places small big) (same : AssociationAt places a b) :
    Indexed S places (small.registerPair a) (big.registerPair b) := by
  refine ⟨indexed.single, ?_⟩
  intro key inside
  have keys : ∀ direction, b.key direction = a.key direction := by
    intro direction
    rw [same.2]
    cases direction <;> rfl
  rw [AssociationTable.get?_registerPair, AssociationTable.get?_registerPair, keys, keys]
  split
  · exact .some ⟨same.1, rfl⟩
  · split
    · exact .some ⟨same.1, rfl⟩
    · exact indexed.pair key inside

theorem get?_registerPair_other (big : AssociationTable) {key : PairKey}
    (different : b.ports ≠ key.ports) :
    Keyed.get? key (big.registerPair b).pair = Keyed.get? key big.pair := by
  have apart : ∀ direction, b.key direction ≠ key := by
    rintro direction rfl
    exact different (b.ports_key direction).symm
  rw [AssociationTable.get?_registerPair, if_neg (apart _), if_neg (apart _)]

theorem registerPair_other (indexed : Indexed S places small big) (outside : b.ports ∉ S) :
    Indexed S places small (big.registerPair b) := by
  refine ⟨indexed.single, ?_⟩
  intro key inside
  have different : b.ports ≠ key.ports := by
    intro same
    rw [same] at outside
    exact outside inside
  rw [get?_registerPair_other big different]
  exact indexed.pair key inside

end Indexed

/- What the table does with an association that it adds, or that has shown a new tag. -/

def registered (t : AssociationTable) (a : Association) (tags : List UInt32) (both : Bool) :
    AssociationTable :=
  let t := tags.foldl (fun t tag => t.registerSingle a tag) t
  if both then t.registerPair a else t

theorem registered_frame (t : AssociationTable) (a : Association) (tags : List UInt32)
    (both : Bool) :
    (registered t a tags both).associations = t.associations ∧
      (registered t a tags both).frames = t.frames := by
  obtain ⟨associations, -, frames⟩ := AssociationTable.registerTags_frame (t := t) (a := a) tags
  cases both <;> exact ⟨associations, frames⟩

theorem Indexed.registered (indexed : Indexed S places small big)
    (increasing : places.Pairwise (· < ·)) (same : AssociationAt places a b) (tags : List UInt32)
    (both : Bool) :
    Indexed S places (registered small a tags both) (registered big b tags both) := by
  have tagged := indexed.registerTags increasing same tags
  cases both with
  | false => exact tagged
  | true => exact tagged.registerPair same

theorem Indexed.registered_other (indexed : Indexed S places small big) (outside : b.ports ∉ S)
    (tags : List UInt32) (both : Bool) :
    Indexed S places small (Isolation.registered big b tags both) := by
  have tagged := indexed.registerTags_other outside tags
  cases both with
  | false => exact tagged
  | true => exact tagged.registerPair_other outside

theorem get?_registered {t : AssociationTable} {tags : List UInt32} {both : Bool} {key : PairKey}
    (found : Keyed.get? key (registered t a tags both).pair = some g) :
    Keyed.get? key t.pair = some g ∨ g.index = a.index ∧ key.ports = a.ports := by
  obtain ⟨-, pair, -⟩ := AssociationTable.registerTags_frame (t := t) (a := a) tags
  cases both with
  | false =>
    left
    rw [← pair]
    exact found
  | true =>
    simp only [registered, ↓reduceIte, AssociationTable.get?_registerPair] at found
    split at found
    · rename_i same
      cases found
      exact Or.inr ⟨rfl, same ▸ a.ports_key .reverse⟩
    · split at found
      · rename_i same
        cases found
        exact Or.inr ⟨rfl, same ▸ a.ports_key .forward⟩
      · left
        rw [← pair]
        exact found

namespace TableSim

/- Looking up. -/

theorem candidate? (sim : TableSim S own places small big) {j i : Nat} (there : At places j i) :
    Option.Rel (FlowAt places) (small.candidate? o j) (big.candidate? o i) := by
  obtain ⟨a, b, inSmall, inBig, same, -⟩ := sim.members.known j i there
  have direction : b.direction? o = a.direction? o := by
    rw [same.2]
    rfl
  simp only [AssociationTable.candidate?, inSmall, inBig, direction, Option.bind_eq_bind,
    Option.bind_some]
  cases a.direction? o with
  | none => exact .none
  | some direction => exact .some ⟨there, rfl⟩

theorem candidate_foreign (sim : TableSim S own places small big) (outside : o.ports ∉ S) {i : Nat}
    (found : big.candidate? o i = some g) : Foreign places big.associations.length g := by
  simp only [AssociationTable.candidate?, Option.bind_eq_bind, Option.bind_eq_some_iff] at found
  obtain ⟨b, inBig, direction, agrees, same⟩ := found
  cases same
  refine ⟨(List.getElem?_eq_some_iff.mp inBig).1, ?_⟩
  intro inside
  obtain ⟨j, there⟩ := mem_places_iff.mp inside
  obtain ⟨a, c, -, inBigToo, -, claimed⟩ := sim.members.known j i there
  rw [inBig] at inBigToo
  cases inBigToo
  rw [Association.ports_of_direction? agrees] at claimed
  exact outside claimed

theorem lookup? (sim : TableSim S own places small big) (inside : o.ports ∈ S) :
    Option.Rel (FlowAt places) (small.lookup? o) (big.lookup? o) := by
  have pair : Option.Rel (FlowAt places) (small.lookupPair? o) (big.lookupPair? o) := by
    unfold AssociationTable.lookupPair?
    split
    · exact sim.indexed.pair o.key inside
    · exact .none
  have single : ∀ tag, Option.Rel (FlowAt places) (small.lookupSingle? o tag)
      (big.lookupSingle? o tag) := by
    intro tag
    have key : (SingleKey.of o.sourcePort o.destinationPort tag).ports ∈ S := by
      rw [SingleKey.ports_of]
      exact inside
    exact findSome?_rel (sim.indexed.single _ key) fun _ _ there => sim.candidate? there
  have probes : Option.Rel (FlowAt places) (o.probes.findSome? (small.lookupSingle? o))
      (o.probes.findSome? (big.lookupSingle? o)) := by
    have same : List.Forall₂ (fun x y : UInt32 => x = y) o.probes o.probes :=
      List.forall₂_same.mpr fun _ _ => rfl
    refine findSome?_rel same ?_
    rintro tag _ rfl
    exact single tag
  unfold AssociationTable.lookup?
  generalize small.lookupPair? o = x, big.lookupPair? o = y at pair
  cases pair with
  | some here => exact .some here
  | none => exact probes

theorem lookup_foreign (sim : TableSim S own places small big) (outside : o.ports ∉ S)
    (found : big.lookup? o = some g) : Foreign places big.associations.length g := by
  rw [AssociationTable.lookup?, Option.or_eq_some_iff] at found
  rcases found with pair | ⟨-, probes⟩
  · unfold AssociationTable.lookupPair? at pair
    split at pair
    · exact sim.foreignPair o.key g outside pair
    · cases pair
  · obtain ⟨tag, -, single⟩ := List.exists_of_findSome?_eq_some probes
    obtain ⟨i, -, candidate⟩ := List.exists_of_findSome?_eq_some single
    exact sim.candidate_foreign outside candidate

/- Registering an association that was added, or that has shown a new tag. -/

theorem register {places' : List Nat} {l l' : List Association}
    (sim : TableSim S own places small big)
    (members : Embeds (AssociationAt places') (fun a => a.ports ∈ S) places' l l')
    (numbered : ∀ i (b : Association), l'[i]? = some b → b.index = i)
    (indexed : Indexed S places' small big)
    (frames : ∀ frame, own frame → Option.Rel (FlowAt places') (Keyed.get? frame small.frames)
      (Keyed.get? frame big.frames))
    (still : ∀ g, Foreign places big.associations.length g → Foreign places' l'.length g)
    (same : AssociationAt places' a b) (claimed : b.ports ∈ S) (tags : List UInt32) (both : Bool) :
    TableSim S own places' { registered small a tags both with associations := l }
      { registered big b tags both with associations := l' } := by
  have after := indexed.registered members.increasing same tags both
  refine ⟨members, numbered, ⟨after.single, after.pair⟩, ?_, ?_, ?_⟩
  · simp only [(registered_frame _ _ _ _).2]
    exact frames
  · intro key g outside found
    rcases get?_registered found with old | ⟨-, ports⟩
    · exact still g (sim.foreignPair key g outside old)
    · rw [ports] at outside
      exact absurd claimed outside
  · simp only [(registered_frame _ _ _ _).2]
    exact fun frame g foreign found => still g (sim.foreignFrame frame g foreign found)

theorem register_other {l' : List Association} (sim : TableSim S own places small big)
    (members : Embeds (AssociationAt places) (fun a => a.ports ∈ S) places small.associations l')
    (numbered : ∀ i (b : Association), l'[i]? = some b → b.index = i)
    (longer : big.associations.length ≤ l'.length) (outside : b.ports ∉ S)
    (foreign : ∀ g : Flow, g.index = b.index → Foreign places l'.length g) (tags : List UInt32)
    (both : Bool) :
    TableSim S own places small { registered big b tags both with associations := l' } := by
  have after := sim.indexed.registered_other outside tags both
  refine ⟨members, numbered, ⟨after.single, after.pair⟩, ?_, ?_, ?_⟩
  · simp only [(registered_frame _ _ _ _).2]
    exact sim.frames
  · intro key g foreignKey found
    rcases get?_registered found with old | ⟨index, -⟩
    · exact (sim.foreignPair key g foreignKey old).mono longer
    · exact foreign g index
  · simp only [(registered_frame _ _ _ _).2]
    exact fun frame g other found => (sim.foreignFrame frame g other found).mono longer

/- Adding an association. -/

theorem introduce_eq (t : AssociationTable) (frame : FrameNumber) (o : Observation) :
    t.introduce frame o =
      { registered t (t.fresh frame o) o.probes (t.fresh frame o).isComplete with
        associations := t.associations ++ [t.fresh frame o] } := by
  have frame' := (registered_frame t (t.fresh frame o) o.probes
    (t.fresh frame o).isComplete).1
  simp only [AssociationTable.introduce]
  rw [← frame']
  rfl

theorem numbered_introduce (sim : TableSim S own places small big) (i : Nat) (b : Association)
    (found : (big.associations ++ [big.fresh frame o])[i]? = some b) : b.index = i := by
  rw [List.getElem?_append] at found
  split at found
  · exact sim.numbered i b found
  · obtain ⟨bound, here⟩ := List.getElem?_eq_some_iff.mp found
    simp only [List.length_cons, List.length_nil] at bound
    simp only [List.getElem_singleton] at here
    rw [← here]
    change big.associations.length = i
    omega

theorem introduce (sim : TableSim S own places small big) (inside : o.ports ∈ S) :
    TableSim S own (places ++ [big.associations.length]) (small.introduce frame o)
      (big.introduce frame o) := by
  have same : AssociationAt (places ++ [big.associations.length]) (small.fresh frame o)
      (big.fresh frame o) := by
    refine ⟨?_, rfl⟩
    have last := at_append_last places big.associations.length
    rwa [sim.members.length] at last
  have extended : Embeds (AssociationAt (places ++ [big.associations.length]))
      (fun a => a.ports ∈ S) places small.associations big.associations :=
    sim.members.imp (fun a b here => ⟨here.1.append _, here.2⟩) fun _ _ => Iff.rfl
  have complete : (big.fresh frame o).isComplete = (small.fresh frame o).isComplete := rfl
  rw [introduce_eq, introduce_eq, complete]
  refine sim.register (extended.push same inside) sim.numbered_introduce (sim.indexed.append _)
    (fun frame ownFrame => rel_append (sim.frames frame ownFrame) _) ?_ same inside _ _
  intro g foreign
  rw [List.length_append]
  exact foreign.append

theorem introduce_other (sim : TableSim S own places small big) (frame : FrameNumber)
    (outside : o.ports ∉ S) :
    TableSim S own places small (big.introduce frame o) := by
  have apart : (big.fresh frame o).ports ∉ S := outside
  have longer : big.associations.length < (big.associations ++ [big.fresh frame o]).length := by
    simp
  rw [introduce_eq]
  refine sim.register_other (sim.members.pushOther apart) sim.numbered_introduce
    (Nat.le_of_lt longer) apart ?_ _ _
  intro g last
  have index : g.index = big.associations.length := last
  refine ⟨by rw [index]; exact longer, ?_⟩
  intro there
  rw [index] at there
  exact absurd (sim.members.place_lt there) (Nat.lt_irrefl _)

/- Learning tags. -/

theorem learn_eq {t : AssociationTable} (found : t.associations[f.index]? = some a) :
    t.learn f o =
      { registered t (AssociationTable.learned a o f.direction)
          (AssociationTable.newTags a (AssociationTable.learned a o f.direction))
          ((AssociationTable.learned a o f.direction).isComplete && !a.isComplete) with
        associations := t.associations.set f.index (AssociationTable.learned a o f.direction) } := by
  have frame := (registered_frame t (AssociationTable.learned a o f.direction)
    (AssociationTable.newTags a (AssociationTable.learned a o f.direction))
    ((AssociationTable.learned a o f.direction).isComplete && !a.isComplete)).1
  simp only [AssociationTable.learn, found]
  rw [← frame]
  rfl

theorem numbered_learn (sim : TableSim S own places small big) {i : Nat}
    (found : big.associations[i]? = some b) (direction : Direction) (i' : Nat) (c : Association)
    (there : (big.associations.set i (AssociationTable.learned b o direction))[i']? = some c) :
    c.index = i' := by
  rw [List.getElem?_set] at there
  split at there
  · rename_i same
    split at there
    · cases there
      rw [← same]
      exact sim.numbered i b found
    · cases there
  · exact sim.numbered i' c there

theorem length_learn (t : AssociationTable) (f : Flow) (o : Observation) :
    (t.learn f o).associations.length = t.associations.length := by
  cases found : t.associations[f.index]? with
  | none => simp only [AssociationTable.learn, found]
  | some a =>
    rw [learn_eq found]
    exact List.length_set

theorem learn (sim : TableSim S own places small big) (same : FlowAt places f g) :
    TableSim S own places (small.learn f o) (big.learn g o) := by
  obtain ⟨a, b, inSmall, inBig, related, claimed⟩ := sim.members.known _ _ same.1
  have after : AssociationAt places (AssociationTable.learned a o f.direction)
      (AssociationTable.learned b o g.direction) := by
    refine ⟨related.1, ?_⟩
    rw [same.2, related.2]
    rfl
  have tags : AssociationTable.newTags b (AssociationTable.learned b o g.direction) =
      AssociationTable.newTags a (AssociationTable.learned a o f.direction) := by
    rw [same.2, related.2]
    rfl
  have both : ((AssociationTable.learned b o g.direction).isComplete && !b.isComplete) =
      ((AssociationTable.learned a o f.direction).isComplete && !a.isComplete) := by
    rw [same.2, related.2]
    rfl
  have stays : (AssociationTable.learned b o g.direction).ports ∈ S := claimed
  rw [learn_eq inSmall, learn_eq inBig, tags, both]
  refine sim.register (sim.members.set same.1 after stays) (sim.numbered_learn inBig g.direction)
    sim.indexed sim.frames ?_ after stays _ _
  intro h foreign
  rw [List.length_set]
  exact foreign

theorem learn_other (sim : TableSim S own places small big)
    (foreign : Foreign places big.associations.length g) :
    TableSim S own places small (big.learn g o) := by
  obtain ⟨b, inBig⟩ : ∃ b, big.associations[g.index]? = some b :=
    ⟨_, List.getElem?_eq_getElem foreign.1⟩
  have outside : (AssociationTable.learned b o g.direction).ports ∉ S :=
    fun claimed => foreign.2 (sim.members.only _ b inBig claimed)
  rw [learn_eq inBig]
  refine sim.register_other (sim.members.setOther foreign.2 outside)
    (sim.numbered_learn inBig g.direction) (Nat.le_of_eq List.length_set.symm) outside ?_ _ _
  intro h index
  have here : h.index = g.index := index.trans (sim.numbered g.index b inBig)
  rw [List.length_set, Foreign, here]
  exact foreign

/- One packet. -/

theorem putFrame (sim : TableSim S own places small big) (same : FlowAt places f g)
    (ownFrame : own frame) :
    TableSim S own places { small with frames := Keyed.put frame f small.frames }
      { big with frames := Keyed.put frame g big.frames } := by
  refine ⟨sim.members, sim.numbered, ⟨sim.indexed.single, sim.indexed.pair⟩, ?_, sim.foreignPair, ?_⟩
  · intro other ownOther
    simp only [Keyed.get?_put]
    split
    · exact .some same
    · exact sim.frames other ownOther
  · intro other h foreign found
    simp only [Keyed.get?_put] at found
    split at found
    · rename_i here
      rw [here] at ownFrame
      exact absurd ownFrame foreign
    · exact sim.foreignFrame other h foreign found

theorem putFrame_other (sim : TableSim S own places small big)
    (foreign : Foreign places big.associations.length g) (otherFrame : ¬ own frame) :
    TableSim S own places small { big with frames := Keyed.put frame g big.frames } := by
  refine ⟨sim.members, sim.numbered, ⟨sim.indexed.single, sim.indexed.pair⟩, ?_, sim.foreignPair, ?_⟩
  · intro other ownOther
    have apart : frame ≠ other := by
      rintro rfl
      exact otherFrame ownOther
    simp only [Keyed.get?_put, if_neg apart]
    exact sim.frames other ownOther
  · intro other h otherToo found
    simp only [Keyed.get?_put] at found
    split at found
    · cases found
      exact foreign
    · exact sim.foreignFrame other h otherToo found

theorem assign (sim : TableSim S own places small big) (inside : o.ports ∈ S)
    (ownFrame : own frame) :
    ∃ more, (∀ i ∈ more, big.associations.length ≤ i) ∧
      TableSim S own (places ++ more) (small.assign frame o).1 (big.assign frame o).1 ∧
      FlowAt (places ++ more) (small.assign frame o).2 (big.assign frame o).2 := by
  have looked := sim.lookup? inside
  unfold AssociationTable.assign
  generalize small.lookup? o = x, big.lookup? o = y at looked
  cases looked with
  | some same =>
    refine ⟨[], ?_, ?_, ?_⟩
    · intro i absent
      cases absent
    · rw [List.append_nil]
      exact (sim.learn same).putFrame same ownFrame
    · rw [List.append_nil]
      exact same
  | none =>
    have same : FlowAt (places ++ [big.associations.length])
        ⟨small.associations.length, .forward⟩ ⟨big.associations.length, .forward⟩ := by
      refine ⟨?_, rfl⟩
      rw [← sim.members.length]
      exact at_append_last places _
    refine ⟨[big.associations.length], ?_, (sim.introduce inside).putFrame same ownFrame, same⟩
    intro i there
    rw [List.mem_singleton.mp there]

theorem assign_other (sim : TableSim S own places small big) (outside : o.ports ∉ S)
    (otherFrame : ¬ own frame) :
    TableSim S own places small (big.assign frame o).1 ∧
      Foreign places (big.assign frame o).1.associations.length (big.assign frame o).2 := by
  unfold AssociationTable.assign
  cases looked : big.lookup? o with
  | some g =>
    have foreign := sim.lookup_foreign outside looked
    have learned := sim.learn_other (o := o) foreign
    have still : Foreign places (big.learn g o).associations.length g := by
      rw [length_learn]
      exact foreign
    exact ⟨learned.putFrame_other still otherFrame, still⟩
  | none =>
    have introduced := sim.introduce_other frame outside
    have foreign : Foreign places (big.introduce frame o).associations.length
        ⟨big.associations.length, .forward⟩ := by
      rw [introduce_eq]
      refine ⟨?_, ?_⟩
      · simp
      · intro there
        exact absurd (sim.members.place_lt there) (Nat.lt_irrefl _)
    exact ⟨introduced.putFrame_other foreign otherFrame, foreign⟩

theorem length_le_resolve (t : AssociationTable) (frame : FrameNumber) (visited : Bool)
    (o : Observation) :
    t.associations.length ≤ (t.resolve frame visited o).1.associations.length := by
  unfold AssociationTable.resolve
  split
  · exact Nat.le_refl _
  · split
    · exact Nat.le_refl _
    · simp only [AssociationTable.assign]
      split
      · rw [length_learn]
      · simp only [introduce_eq, List.length_append]
        exact Nat.le_add_right _ _

/-- The flows that a packet on a pair in `S` is resolved to are the same, up to the places. -/
theorem resolve (sim : TableSim S own places small big) (inside : o.ports ∈ S)
    (ownFrame : own frame) :
    ∃ more, (∀ i ∈ more, big.associations.length ≤ i) ∧
      TableSim S own (places ++ more) (small.resolve frame false o).1
        (big.resolve frame false o).1 ∧
      Option.Rel (FlowAt (places ++ more)) (small.resolve frame false o).2
        (big.resolve frame false o).2 := by
  have memory := sim.frames frame ownFrame
  have assigned := sim.assign inside ownFrame
  unfold AssociationTable.resolve
  generalize Keyed.get? frame small.frames = x, Keyed.get? frame big.frames = y at memory
  cases memory with
  | some same =>
    refine ⟨[], ?_, ?_, ?_⟩
    · intro i absent
      cases absent
    · rw [List.append_nil]
      exact sim
    · rw [List.append_nil]
      exact .some same
  | none =>
    obtain ⟨more, beyond, after, flow⟩ := assigned
    exact ⟨more, beyond, after, .some flow⟩

theorem resolve_other (sim : TableSim S own places small big) (outside : o.ports ∉ S)
    (otherFrame : ¬ own frame) :
    TableSim S own places small (big.resolve frame false o).1 ∧
      ∀ g, (big.resolve frame false o).2 = some g →
        Foreign places (big.resolve frame false o).1.associations.length g := by
  obtain ⟨after, foreign⟩ := sim.assign_other outside otherFrame
  unfold AssociationTable.resolve
  cases memory : Keyed.get? frame big.frames with
  | some known =>
    refine ⟨sim, ?_⟩
    rintro g same
    cases same
    exact sim.foreignFrame frame _ otherFrame memory
  | none =>
    refine ⟨after, ?_⟩
    rintro g same
    cases same
    exact foreign

end TableSim

end Isolation

end SctpTrace
