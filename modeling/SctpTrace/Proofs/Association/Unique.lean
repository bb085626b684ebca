import SctpTrace.Proofs.Association.Growth
import SctpTrace.Proofs.Keyed

/-!
The table of associations as a whole. Beside its exact indexes, the ports and the tags of an
association that knows two different tags are its own (`indexes_consistent`): both tags of a packet
are looked up before an association gets them.
-/
namespace SctpTrace

/-- Two different tags, with their ports and in either orientation, are known to one association. -/
def Distinct (l : List Association) : Prop :=
  ∀ (i j : Nat) (a b : Association), l[i]? = some a → l[j]? = some b → a.isComplete = true →
    a.destinationTag ≠ a.sourceTag → ∀ d e, a.key d = b.key e → i = j

variable {a b : Association} {o : Observation} {d e : Direction} {l l' : List Association}
  {k : Nat}

theorem Association.tags_of_key (same : a.key d = b.key e) :
    (a.isComplete = true ↔ b.isComplete = true) ∧
      (a.destinationTag = a.sourceTag ↔ b.destinationTag = b.sourceTag) := by
  rw [isComplete_iff d, ← equal_tags_iff d, same, ← isComplete_iff e, equal_tags_iff e]
  exact ⟨Iff.rfl, Iff.rfl⟩

theorem Association.key_opposite (same : a.key d = b.key e) :
    a.key d.opposite = b.key e.opposite := by
  cases d <;> cases e <;>
    simp only [key, Direction.opposite, PairKey.mk.injEq, TagPair.mk.injEq] at same ⊢ <;> grind

theorem Distinct.change (distinct : Distinct l)
    (others : ∀ (i : Nat), i ≠ k → l'[i]? = l[i]?)
    (new : ∀ a, l'[k]? = some a → a.isComplete = true → a.destinationTag ≠ a.sourceTag →
      l[k]? = some a ∨
        ∀ (j : Nat) (b : Association), l[j]? = some b → ∀ d e, a.key d ≠ b.key e) :
    Distinct l' := by
  intro i j a b here there complete differ d e same
  have tags := Association.tags_of_key same
  by_cases first : i = k <;> by_cases second : j = k
  · rw [first, second]
  · rw [others j second] at there
    rcases new a (first ▸ here) complete differ with old | absent
    · exact distinct i j a b (first ▸ old) there complete differ d e same
    · exact absurd same (absent j b there d e)
  · rw [others i first] at here
    rcases new b (second ▸ there) (tags.1.mp complete) (tags.2.not.mp differ) with old | absent
    · exact distinct i j a b here (second ▸ old) complete differ d e same
    · exact absurd same.symm (absent i a here e d)
  · rw [others i first] at here
    rw [others j second] at there
    exact distinct i j a b here there complete differ d e same

def Inquiry.between (frame : FrameNumber) (source destination : UInt8 × UInt16)
    (destinationTag sourceTag : UInt32) : Inquiry :=
  ⟨frame, false, ⟨source.2, destination.2, .ofOctets 10 0 0 source.1,
    .ofOctets 10 0 0 destination.1, destinationTag, sourceTag⟩⟩

namespace AssociationTable

variable {t : AssociationTable} {f : Flow} {frame : FrameNumber}

theorem Exact.key_ne_of_lookupPair? (exact : t.Exact) (both : o.showsBoth = true)
    (absent : t.lookupPair? o = none) (covers : a.Covers o d) (j : Nat) (b : Association)
    (there : t.associations[j]? = some b) (d' e : Direction) : a.key d' ≠ b.key e := by
  obtain ⟨own, complete⟩ := covers.key_eq both
  rw [lookupPair?, if_pos both] at absent
  intro same
  have known : b.isComplete = true := (Association.tags_of_key same).1.mp complete
  have unlisted : ∀ e', b.key e' ≠ o.key := by
    intro e' listed
    have present := exact.both j b there known e'
    rw [listed, absent] at present
    cases present
  cases d <;> cases d'
  · exact unlisted e (same.symm.trans own)
  · exact unlisted e.opposite ((Association.key_opposite same).symm.trans own)
  · exact unlisted e.opposite ((Association.key_opposite same).symm.trans own)
  · exact unlisted e (same.symm.trans own)

/-- An association that holds a tag of a packet learns its second tag from it if the packet shows
both tags, or if it shows, for the second end, the tag that the association holds for the first. -/
theorem shown_of_learned (held : ∃ tag ∈ o.probes, a.Holds tag) (before : a.isComplete = false)
    (after : (learned a o d).isComplete = true) : o.showsBoth = true ∨
      ∃ tag, (∀ e, ((learned a o d).key e).tags = ⟨tag, tag⟩) ∧ o.probes = [tag] := by
  obtain ⟨tag, probed, holds⟩ := held
  have missing := Bool.eq_false_iff.mp before
  rw [ne_eq, Association.isComplete_iff d] at missing
  rw [Association.isComplete_iff d] at after
  rw [Observation.mem_probes_iff] at probed
  rw [Association.key_learned] at after
  simp only [Observation.showsBoth, Bool.and_eq_true, bne_iff_ne]
  by_cases known : tag = 0
  · rw [if_pos known] at probed
    grind
  · rw [if_neg known] at probed
    rw [Association.holds_iff d known] at holds
    by_cases both : o.destinationTag ≠ 0 ∧ o.sourceTag ≠ 0
    · exact Or.inl both
    · refine Or.inr ⟨tag, Association.tags_key (d := d) ?_, ?_⟩
      · rw [Association.key_learned]
        grind
      · grind [Observation.probes]

theorem Exact.distinct_assign (exact : t.Exact) (distinct : Distinct t.associations) :
    Distinct (t.assign frame o).1.associations := by
  apply distinct.change (fun i other => associations_assign other)
  intro a here complete differ
  cases found : t.lookup? o with
  | none =>
    obtain ⟨flow, there⟩ := assign_new frame found
    rw [flow, there] at here
    cases here
    have both : o.showsBoth = true := complete
    have absent := (Option.or_eq_none_iff.mp found).1
    exact Or.inr (exact.key_ne_of_lookupPair? both absent (covers_fresh t frame o))
  | some f =>
    obtain ⟨b, there, how⟩ := exact.lookup?_cases found
    obtain ⟨flow, after⟩ := assign_known frame found there
    rw [flow, after] at here
    cases here
    rw [flow]
    cases before : b.isComplete with
    | true =>
      left
      rw [there, complete_learned before]
    | false =>
      rcases how with ⟨-, known, -⟩ | ⟨absent, matching⟩
      · rw [before] at known
        cases known
      · obtain ⟨c, thereToo, -, held⟩ := exact.lookup?_sound found
        rw [there] at thereToo
        cases thereToo
        have both : o.showsBoth = true := by
          refine (shown_of_learned held before complete).resolve_right ?_
          rintro ⟨tag, tags, -⟩
          rw [ne_eq, ← Association.equal_tags_iff .forward, tags] at differ
          exact differ rfl
        exact Or.inr (exact.key_ne_of_lookupPair? both absent
          (Association.covers_learned matching))

theorem Reachable.distinct (reachable : t.Reachable) : Distinct t.associations := by
  obtain ⟨history, rfl⟩ := reachable
  have blank : Distinct empty.associations := by
    intro i j a b absent
    cases absent
  exact (resolveAll_induction (P := fun t => t.Exact ∧ Distinct t.associations) history
    (fun _ _ _ _ kept => ⟨kept.1.assign, kept.1.distinct_assign kept.2⟩) ⟨exact_empty, blank⟩).2

/- Each association was shown by a frame of its own, so that there are no more associations than
   frame numbers. -/

theorem length_assign :
    (t.assign frame o).1.associations.length ≤ t.associations.length + 1 := by
  unfold AssociationTable.assign
  cases t.lookup? o with
  | none => simp [Isolation.TableSim.introduce_eq]
  | some f =>
    cases here : t.associations[f.index]? with
    | none => simp [AssociationTable.learn, here]
    | some a => simp [Isolation.TableSim.learn_eq here]

structure Counted (t : AssociationTable) : Prop where
  distinct : t.frames.keys.Nodup
  bound : t.associations.length ≤ t.frames.keys.length

theorem Counted.assign (counted : t.Counted) (new : Keyed.get? frame t.frames = none) :
    (t.assign frame o).1.Counted := by
  refine ⟨?_, ?_⟩
  · rw [frames_assign]
    exact Keyed.nodup_keys_put counted.distinct
  · rw [frames_assign, Keyed.put_of_get?_eq_none new, Keyed.keys, List.map_append,
      List.length_append]
    exact Nat.le_trans length_assign (Nat.succ_le_succ counted.bound)

theorem Reachable.length_le (reachable : t.Reachable) : t.associations.length ≤ 2 ^ 32 := by
  obtain ⟨history, rfl⟩ := reachable
  have counted := resolveAll_induction history (fun _ _ _ new kept => Counted.assign kept new)
    (⟨List.nodup_nil, Nat.le_refl 0⟩ : empty.Counted)
  refine Nat.le_trans counted.bound ?_
  have words : ∀ keys : List UInt32, keys.Nodup → keys.length ≤ 2 ^ 32 := by
    intro keys distinct
    have numbers : (keys.map UInt32.toNat).Nodup :=
      distinct.map fun _ _ same => UInt32.toNat.inj same
    have inside : keys.map UInt32.toNat ⊆ List.range (2 ^ 32) := by
      intro n there
      obtain ⟨word, -, rfl⟩ := List.mem_map.mp there
      exact List.mem_range.mpr word.toNat_lt
    simpa using numbers.length_le_of_subset inside
  exact words _ counted.distinct

/-- In every table that packets lead to, a tag leads to the associations that hold it, both tags of
an association lead to it in either direction, two different tags are known to one association only,
and the places are 32-bit words. -/
theorem indexes_consistent (reachable : t.Reachable) :
    t.Exact ∧ Distinct t.associations ∧ t.associations.length ≤ 2 ^ 32 :=
  ⟨reachable.exact, reachable.distinct, reachable.length_le⟩

/-- An answer brings the second tag, a second association shares a tag with the first, and two ends
on one port have the same tag. -/
def sharedTagsRun : List Inquiry :=
  [.between 1 (1, 1000) (2, 2000) 7 0, .between 2 (2, 2000) (1, 1000) 8 7,
    .between 3 (3, 1000) (4, 2000) 9 7, .between 4 (1, 5000) (2, 5000) 7 0,
    .between 5 (2, 5000) (1, 5000) 7 0, .between 6 (5, 5000) (6, 5000) 0 0]

theorem indexes_consistent_for_shared_tags :
    let t := (empty.resolveAll sharedTagsRun).1
    t.Reachable ∧ t.Exact ∧ Distinct t.associations ∧ t.associations.length ≤ 2 ^ 32 := by
  have reachable : (empty.resolveAll sharedTagsRun).1.Reachable := ⟨sharedTagsRun, rfl⟩
  exact ⟨reachable, indexes_consistent reachable⟩

end AssociationTable

end SctpTrace
