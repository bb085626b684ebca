import Mathlib.Algebra.BigOperators.Group.List.Basic
import Mathlib.Algebra.GroupWithZero.Nat
import Mathlib.Data.List.Nodup
import SctpTrace.Keyed

/-!
Entries with ascending or distinct keys: what `insertOrdered` and `put` keep, and what they do to a
sum over the entries.
-/
namespace SctpTrace.Keyed

variable {κ α : Type} [DecidableEq κ]

def Ascending (entries : Keyed Nat α) : Prop := entries.keys.Pairwise (· < ·)

theorem mem_of_mem_insertOrdered {key : Nat} {value : α} {entries : Keyed Nat α}
    {entry : Nat × α} (there : entry ∈ insertOrdered key value entries) :
    entry = (key, value) ∨ entry ∈ entries := by
  induction entries with
  | nil => simpa [insertOrdered] using there
  | cons first rest ih =>
    obtain ⟨k, v⟩ := first
    simp only [insertOrdered] at there
    split at there
    · simpa using there
    · split at there <;> grind

theorem mem_of_mem_put {key : κ} {value : α} {entries : Keyed κ α} {entry : κ × α}
    (there : entry ∈ put key value entries) : entry = (key, value) ∨ entry ∈ entries := by
  induction entries with
  | nil => simpa [put] using there
  | cons first rest ih =>
    obtain ⟨k, v⟩ := first
    simp only [put] at there
    split at there <;> grind

theorem put_of_get?_eq_none {key : κ} {value : α} {entries : Keyed κ α}
    (absent : get? key entries = none) : put key value entries = entries ++ [(key, value)] := by
  induction entries with
  | nil => rfl
  | cons first rest ih =>
    simp only [get?] at absent
    split at absent
    · cases absent
    · rename_i other
      rw [put, if_neg other, ih absent, List.cons_append]

theorem put_of_get?_eq_some {key : κ} {value : α} {entries : Keyed κ α}
    (known : get? key entries = some value) : put key value entries = entries := by
  induction entries with
  | nil => cases known
  | cons first rest ih =>
    obtain ⟨k, v⟩ := first
    simp only [get?] at known
    split at known
    · rename_i same
      cases known
      rw [put, if_pos same, same]
    · rename_i other
      rw [put, if_neg other, ih known]

theorem keys_put (key : κ) (value : α) (entries : Keyed κ α) :
    (put key value entries).keys =
      if key ∈ entries.keys then entries.keys else entries.keys ++ [key] := by
  induction entries with
  | nil => rfl
  | cons first rest ih =>
    obtain ⟨k, v⟩ := first
    simp only [put, keys, List.map_cons, List.mem_cons] at ih ⊢
    by_cases same : k = key
    · simp [same]
    · rw [if_neg same, List.map_cons, ih]
      by_cases later : key ∈ rest.map (·.1)
      · simp [later]
      · simp [later, Ne.symm same]

theorem nodup_keys_put {key : κ} {value : α} {entries : Keyed κ α}
    (distinct : entries.keys.Nodup) : (put key value entries).keys.Nodup := by
  rw [keys_put]
  split
  · exact distinct
  · rename_i absent
    exact List.nodup_append.mpr ⟨distinct, List.nodup_singleton key, by grind⟩

/-- A known key is put where it stands, in a list that is the image of entries with distinct
keys. -/
theorem put_map {β : Type} {f g : κ → α → β} {key : κ} {old : α} {value : β}
    {entries : Keyed κ α} (distinct : entries.keys.Nodup)
    (known : get? key entries = some old) (here : g key old = value)
    (elsewhere : ∀ k a, k ≠ key → g k a = f k a) :
    put key value (entries.map fun e => (e.1, f e.1 e.2)) =
      entries.map fun e => (e.1, g e.1 e.2) := by
  induction entries with
  | nil => cases known
  | cons first rest ih =>
    obtain ⟨k, a⟩ := first
    simp only [keys, List.map_cons, List.nodup_cons] at distinct
    simp only [get?] at known
    simp only [List.map_cons, put]
    split at known
    · rename_i same
      subst same
      cases known
      rw [if_pos rfl, here]
      refine congrArg _ (List.map_congr_left fun e there => ?_)
      have other : e.1 ≠ k := by
        intro same
        exact distinct.1 (same ▸ List.mem_map_of_mem there)
      rw [elsewhere e.1 e.2 other]
    · rename_i other
      rw [if_neg other, ih distinct.2 known, elsewhere k a other]

theorem get?_of_mem {entries : Keyed κ α} (distinct : entries.keys.Nodup) {entry : κ × α}
    (there : entry ∈ entries) : get? entry.1 entries = some entry.2 := by
  induction entries with
  | nil => cases there
  | cons first rest ih =>
    simp only [keys, List.map_cons, List.nodup_cons] at distinct
    rw [get?]
    rcases List.mem_cons.mp there with rfl | later
    · rw [if_pos rfl]
    · rw [if_neg, ih distinct.2 later]
      intro same
      exact distinct.1 (same ▸ List.mem_map_of_mem later)

theorem Ascending.nodup {entries : Keyed Nat α} (ascending : entries.Ascending) :
    entries.keys.Nodup :=
  ascending.imp Nat.ne_of_lt

theorem get?_eq_none_of_above {key : Nat} {entries : Keyed Nat α}
    (above : ∀ k ∈ entries.keys, key < k) : get? key entries = none := by
  induction entries with
  | nil => rfl
  | cons first rest ih =>
    simp only [keys, List.map_cons, List.mem_cons] at above
    have here := above first.1 (Or.inl rfl)
    rw [get?, if_neg (by omega)]
    exact ih fun k there => above k (Or.inr there)

theorem ascending_insertOrdered (key : Nat) (value : α) {entries : Keyed Nat α}
    (ascending : entries.Ascending) : (insertOrdered key value entries).Ascending := by
  induction entries with
  | nil => simp [insertOrdered, Ascending, keys]
  | cons first rest ih =>
    obtain ⟨k, v⟩ := first
    simp only [Ascending, keys, List.map_cons, List.pairwise_cons] at ascending ih
    simp only [insertOrdered]
    split
    · simp only [Ascending, keys, List.map_cons, List.pairwise_cons, List.mem_cons]
      grind
    · split
      · rename_i same
        subst same
        simpa only [Ascending, keys, List.map_cons, List.pairwise_cons] using ascending
      · simp only [Ascending, keys, List.map_cons, List.pairwise_cons]
        refine ⟨?_, ih ascending.2⟩
        intro other there
        obtain ⟨entry, member, rfl⟩ := List.mem_map.mp there
        rcases mem_of_mem_insertOrdered member with rfl | old
        · simp only
          omega
        · exact ascending.1 _ (List.mem_map_of_mem old)

/-- A sum over the entries loses the old value of the key, if it has one, and gains the new one. -/
theorem sum_insertOrdered (f : α → Nat) (key : Nat) (value : α) {entries : Keyed Nat α}
    (ascending : entries.Ascending) :
    ((insertOrdered key value entries).map fun e => f e.2).sum +
        ((get? key entries).map f).getD 0 =
      (entries.map fun e => f e.2).sum + f value := by
  induction entries with
  | nil => simp [insertOrdered]
  | cons first rest ih =>
    obtain ⟨k, v⟩ := first
    simp only [Ascending, keys, List.map_cons, List.pairwise_cons] at ascending
    have later := ih ascending.2
    simp only [insertOrdered]
    split
    · rename_i before
      have absent : get? key ((k, v) :: rest) = none := by
        refine get?_eq_none_of_above ?_
        simp only [keys, List.map_cons, List.mem_cons]
        rintro other (rfl | there)
        · exact before
        · exact Nat.lt_trans before (ascending.1 other there)
      simp only [absent, List.map_cons, List.sum_cons, Option.map_none, Option.getD_none]
      omega
    · split
      · rename_i same
        simp only [get?, if_pos same, List.map_cons, List.sum_cons, Option.map_some,
          Option.getD_some]
        omega
      · rename_i other
        simp only [get?, if_neg other, List.map_cons, List.sum_cons]
        omega

theorem sum_put (f : α → Nat) (key : κ) (value : α) (entries : Keyed κ α) :
    ((put key value entries).map fun e => f e.2).sum + ((get? key entries).map f).getD 0 =
      (entries.map fun e => f e.2).sum + f value := by
  induction entries with
  | nil => simp [put]
  | cons first rest ih =>
    obtain ⟨k, v⟩ := first
    simp only [put, get?]
    split
    · simp only [List.map_cons, List.sum_cons, Option.map_some, Option.getD_some]
      omega
    · simp only [List.map_cons, List.sum_cons]
      omega

end SctpTrace.Keyed
