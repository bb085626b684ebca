import SctpTrace.Proofs.Association.Stability

/-!
The indexes of the association table and a scan of the associations. The scan reads in both
directions every association that shares the ports and a tag with the packet, and keeps the ways in
which the packet matches. What the indexes lead to is one of them, and they lead to nothing exactly
if there is none (`resolve_refines_scan`).
-/
namespace SctpTrace

/-- The ports are the same, in one order or the other, and the association holds a tag that the
packet shows. A packet without tags shares its tags with an association without tags. -/
def Association.SharesTag (a : Association) (o : Observation) : Prop :=
  (a.sourcePort = o.sourcePort ∧ a.destinationPort = o.destinationPort ∨
      a.sourcePort = o.destinationPort ∧ a.destinationPort = o.sourcePort) ∧
    if o.destinationTag = 0 ∧ o.sourceTag = 0 then a.destinationTag = 0 ∧ a.sourceTag = 0
    else
      o.destinationTag ≠ 0 ∧
          (a.destinationTag = o.destinationTag ∨ a.sourceTag = o.destinationTag) ∨
        o.sourceTag ≠ 0 ∧ (a.destinationTag = o.sourceTag ∨ a.sourceTag = o.sourceTag)

instance (a : Association) (o : Observation) : Decidable (a.SharesTag o) :=
  inferInstanceAs (Decidable (_ ∧ ite _ _ _))

namespace Association

variable {a : Association} {o : Observation} {d : Direction}

theorem sharesTag_iff : a.SharesTag o ↔ a.ports = o.ports ∧ ∃ tag ∈ o.probes, a.Holds tag := by
  rw [SharesTag, ports, Observation.ports, Sym2.eq_iff]
  refine and_congr_right fun _ => ?_
  simp only [Observation.mem_probes_iff, Holds]
  constructor
  · intro shared
    split at shared
    · exact ⟨0, by simp_all⟩
    · rcases shared with ⟨known, held⟩ | ⟨known, held⟩
      · exact ⟨o.destinationTag, by simp_all⟩
      · exact ⟨o.sourceTag, by simp_all⟩
  · rintro ⟨tag, probed, held⟩
    grind

theorem matchesIn_of_key (both : o.showsBoth = true) (same : a.key d = o.key) :
    a.matchesIn o d = true := by
  have covers := covers_of_key same
  have shows : o.destinationTag ≠ 0 := by
    simp only [Observation.showsBoth, Bool.and_eq_true, bne_iff_ne] at both
    exact both.1
  exact matchesIn_of_covers covers (covers.key_eq both).2 (Or.inl shows)

end Association

namespace AssociationTable

variable {t : AssociationTable} {a : Association} {o : Observation} {d : Direction} {f : Flow}
  {frame : FrameNumber}

/-- Every way in which the packet belongs to an association that shares a tag with it. -/
def scan (t : AssociationTable) (o : Observation) : List Flow :=
  t.associations.zipIdx.flatMap fun (a, i) =>
    if a.SharesTag o then ([.forward, .reverse].filter (a.matchesIn o)).map fun d => ⟨i, d⟩ else []

theorem mem_scan_iff : f ∈ t.scan o ↔
    ∃ a, t.associations[f.index]? = some a ∧ a.SharesTag o ∧ a.matchesIn o f.direction = true := by
  obtain ⟨index, d⟩ := f
  simp only [scan, List.mem_flatMap, Prod.exists, List.mem_zipIdx_iff_getElem?]
  constructor
  · rintro ⟨a, i, there, found⟩
    split at found
    · rename_i shares
      obtain ⟨e, matching, same⟩ := List.mem_map.mp found
      cases same
      exact ⟨a, there, shares, (List.mem_filter.mp matching).2⟩
    · cases found
  · rintro ⟨a, there, shares, matching⟩
    refine ⟨a, index, there, ?_⟩
    rw [if_pos shares]
    refine List.mem_map_of_mem (List.mem_filter.mpr ⟨?_, matching⟩)
    cases d <;> simp

theorem Exact.mem_scan_of_lookup? (exact : t.Exact) (found : t.lookup? o = some f) :
    f ∈ t.scan o := by
  obtain ⟨a, here, how⟩ := exact.lookup?_cases found
  obtain ⟨b, there, shares⟩ := exact.lookup?_sound found
  rw [here] at there
  cases there
  refine mem_scan_iff.mpr ⟨a, here, Association.sharesTag_iff.mpr shares, ?_⟩
  rcases how with ⟨both, -, same⟩ | ⟨-, matching⟩
  · exact Association.matchesIn_of_key both same
  · exact a.matchesIn_of_direction? matching

/-- Every association that the scan finds stands in one of the buckets that are looked through. -/
theorem Exact.scan_eq_nil (exact : t.Exact) (absent : t.lookup? o = none) : t.scan o = [] := by
  rw [List.eq_nil_iff_forall_not_mem]
  intro f there
  obtain ⟨a, here, shares, matching⟩ := mem_scan_iff.mp there
  obtain ⟨ports, tag, probed, holds⟩ := Association.sharesTag_iff.mp shares
  have listed : f.index ∈ t.bucket (.of o.sourcePort o.destinationPort tag) :=
    (exact.single _ _ _ _).mpr ⟨a, here, ports, holds⟩
  have nothing := (Option.or_eq_none_iff.mp absent).2
  have candidate := List.findSome?_eq_none_iff.mp
    (List.findSome?_eq_none_iff.mp nothing tag probed) f.index listed
  have unmatched := (candidate?_eq_none_iff here).mp candidate
  rw [Association.direction?_eq_none_iff.mp unmatched] at matching
  cases matching

theorem Exact.key_of_lookup? (exact : t.Exact) (both : o.showsBoth = true)
    (there : a ∈ t.associations) (same : a.key d = o.key) :
    ∃ f b, t.lookup? o = some f ∧ t.associations[f.index]? = some b ∧
      b.key f.direction = o.key := by
  obtain ⟨i, here⟩ := List.mem_iff_getElem?.mp there
  have complete := ((Association.covers_of_key same).key_eq both).2
  have listed := exact.both i a here complete d
  rw [same] at listed
  obtain ⟨f, found⟩ := Option.isSome_iff_exists.mp listed
  obtain ⟨b, place, -, known⟩ := exact.pair o.key f found
  refine ⟨f, b, ?_, place, known⟩
  rw [lookup?, lookupPair?, if_pos both, found, Option.some_or]

structure Refines (t : AssociationTable) (frame : FrameNumber) (o : Observation)
    (after : AssociationTable) (f : Flow) : Prop where
  /-- Nothing in the scan: the packet opens an association. -/
  opens : t.scan o = [] →
    f = ⟨t.associations.length, .forward⟩ ∧
      after.associations = t.associations ++ [t.fresh frame o]
  /-- Otherwise the answer stands in the scan, and no association is added. -/
  finds : t.scan o ≠ [] → f ∈ t.scan o ∧ after.associations.length = t.associations.length
  /-- Both tags of a packet lead to an association that has both of them, in this order. -/
  prefers : o.showsBoth = true → ∀ a ∈ t.associations, ∀ d, a.key d = o.key →
    ∃ b, t.associations[f.index]? = some b ∧ b.key f.direction = o.key

theorem Exact.refines_assign (exact : t.Exact) (frame : FrameNumber) (o : Observation) :
    t.Refines frame o (t.assign frame o).1 (t.assign frame o).2 := by
  cases found : t.lookup? o with
  | none =>
    have nothing := exact.scan_eq_nil found
    refine ⟨fun _ => ⟨(assign_new frame found).1, ?_⟩, fun any => absurd nothing any, ?_⟩
    · simp only [AssociationTable.assign, found, Isolation.TableSim.introduce_eq]
    · intro both a there d same
      obtain ⟨f, -, listed, -⟩ := exact.key_of_lookup? both there same
      rw [found] at listed
      cases listed
  | some f =>
    have member := exact.mem_scan_of_lookup? found
    obtain ⟨a, here, -⟩ := mem_scan_iff.mp member
    have answer := (assign_known frame found here).1
    rw [answer]
    refine ⟨fun nothing => absurd nothing (List.ne_nil_of_mem member), fun _ => ⟨member, ?_⟩, ?_⟩
    · simp only [AssociationTable.assign, found, Isolation.TableSim.learn_eq here, List.length_set]
    · intro both a there d same
      obtain ⟨g, b, listed, place, known⟩ := exact.key_of_lookup? both there same
      rw [found, Option.some.injEq] at listed
      subst listed
      exact ⟨b, place, known⟩

theorem resolve_refines_scan (reachable : t.Reachable)
    (new : Keyed.get? frame t.frames = none) (o : Observation) :
    ∃ f, (t.resolve frame false o).2 = some f ∧
      t.Refines frame o (t.resolve frame false o).1 f := by
  rw [resolve_new new]
  exact ⟨_, rfl, reachable.exact.refines_assign frame o⟩

/-- A tag of each end is shown by a packet of its own, and then both by one packet. -/
def bothTagsRun : List Inquiry :=
  [.between 1 (2, 2000) (1, 1000) 8 0, .between 2 (1, 1000) (2, 2000) 7 0,
    .between 3 (1, 1000) (2, 2000) 7 8]

theorem resolve_refines_scan_with_both_tags :
    let t := (empty.resolveAll bothTagsRun).1
    let o := (Inquiry.between 4 (1, 1000) (2, 2000) 7 8).observation
    t.Reachable ∧ Keyed.get? 4 t.frames = none ∧ t.scan o = [⟨0, .reverse⟩, ⟨1, .forward⟩] ∧
      (t.resolve 4 false o).2 = some ⟨1, .forward⟩ ∧
        t.Refines 4 o (t.resolve 4 false o).1 ⟨1, .forward⟩ := by
  intro t o
  have reachable : t.Reachable := ⟨bothTagsRun, rfl⟩
  have new : Keyed.get? 4 t.frames = none := by decide
  have answer : (t.resolve 4 false o).2 = some ⟨1, .forward⟩ := by decide
  obtain ⟨f, found, refines⟩ := resolve_refines_scan reachable new o
  rw [answer, Option.some.injEq] at found
  subst found
  exact ⟨reachable, new, by decide, answer, refines⟩

end AssociationTable

end SctpTrace
