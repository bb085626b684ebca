import Mathlib.Data.List.Nodup

/-!
Lists searched by a key that no two members share.
-/
namespace SctpTrace

variable {α κ : Type} {key : α → κ} {l other : List α} {k : κ} {a : α}

theorem place_eq_of_key {i j : Nat} {b : α} (distinct : (l.map key).Nodup) (here : l[i]? = some a)
    (there : l[j]? = some b) (same : key a = key b) : i = j := by
  have inside : i < (l.map key).length := by
    rw [List.length_map]
    exact (List.getElem?_eq_some_iff.mp here).1
  refine (List.getElem?_inj inside distinct).mp ?_
  rw [List.getElem?_map, List.getElem?_map, here, there, Option.map_some, Option.map_some, same]

variable [DecidableEq κ]

theorem find?_key_eq_some_iff (distinct : (l.map key).Nodup) :
    l.find? (fun b => key b == k) = some a ↔ a ∈ l ∧ key a = k := by
  constructor
  · intro found
    exact ⟨List.mem_of_find?_eq_some found, by simpa using List.find?_some found⟩
  · rintro ⟨member, rfl⟩
    cases found : l.find? (fun b => key b == key a) with
    | none =>
      have absent := List.find?_eq_none.mp found a member
      simp at absent
    | some b =>
      have same : key b = key a := by simpa using List.find?_some found
      rw [List.inj_on_of_nodup_map distinct (List.mem_of_find?_eq_some found) member same]

theorem find?_key_eq_none_iff :
    l.find? (fun b => key b == k) = none ↔ k ∉ l.map key := by
  simp only [List.find?_eq_none, beq_iff_eq, List.mem_map, not_exists, not_and]

theorem find?_key_perm (same : l.Perm other) (distinct : (other.map key).Nodup) :
    l.find? (fun b => key b == k) = other.find? (fun b => key b == k) := by
  have apart : (l.map key).Nodup := (same.map key).nodup_iff.mpr distinct
  apply Option.ext
  intro a
  rw [find?_key_eq_some_iff apart, find?_key_eq_some_iff distinct, same.mem_iff]

/-- Each member kept because of `q` alone is the one that `q` adds to `p`. -/
theorem filter_perm_append {p q : α → Bool} (distinct : l.Nodup) (member : a ∈ l)
    (newly : p a = false) (others : ∀ b ∈ l, b ≠ a → q b = p b) :
    (l.filter q).Perm (l.filter p ++ if q a then [a] else []) := by
  have apart : (l.filter p ++ if q a then [a] else []).Nodup := by
    rw [List.nodup_append]
    refine ⟨distinct.filter p, ?_, ?_⟩
    · split <;> simp
    · intro b kept c added same
      subst same
      have kept := (List.mem_filter.mp kept).2
      split at added
      · rw [List.mem_singleton] at added
        rw [added, newly] at kept
        cases kept
      · cases added
  rw [List.perm_ext_iff_of_nodup (distinct.filter q) apart]
  intro b
  rw [List.mem_append, List.mem_filter, List.mem_filter]
  by_cases same : b = a
  · subst same
    cases here : q b <;> simp [member, newly]
  · have apartFromNew : b ∉ (if q a then [a] else []) := by
      split <;> simp [same]
    simp only [apartFromNew, or_false]
    constructor
    · rintro ⟨inside, kept⟩
      exact ⟨inside, (others b inside same) ▸ kept⟩
    · rintro ⟨inside, kept⟩
      exact ⟨inside, (others b inside same).trans kept⟩

end SctpTrace
