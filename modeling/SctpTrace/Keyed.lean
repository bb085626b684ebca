/-!
Entries found by their key. `put` replaces the value of a key in place and adds a new key at the
end, `insertOrdered` keeps natural-number keys ascending. `get?_put` and `get?_insertOrdered` say
that both change what one key leads to and nothing else.
-/
namespace SctpTrace

abbrev Keyed (κ α : Type) := List (κ × α)

namespace Keyed

variable {κ α : Type} [DecidableEq κ]

def get? (key : κ) : Keyed κ α → Option α
  | [] => none
  | (k, v) :: rest => if k = key then some v else get? key rest

def put (key : κ) (value : α) : Keyed κ α → Keyed κ α
  | [] => [(key, value)]
  | (k, v) :: rest => if k = key then (key, value) :: rest else (k, v) :: put key value rest

def insertOrdered (key : Nat) (value : α) : Keyed Nat α → Keyed Nat α
  | [] => [(key, value)]
  | (k, v) :: rest =>
    if key < k then (key, value) :: (k, v) :: rest
    else if k = key then (key, value) :: rest
    else (k, v) :: insertOrdered key value rest

def keys (entries : Keyed κ α) : List κ := entries.map (·.1)

@[simp] theorem get?_nil (key : κ) : get? key ([] : Keyed κ α) = none := rfl

theorem get?_put (key other : κ) (value : α) (entries : Keyed κ α) :
    get? other (put key value entries) =
      if key = other then some value else get? other entries := by
  induction entries with
  | nil => simp [put, get?]
  | cons entry rest ih =>
    obtain ⟨k, v⟩ := entry
    by_cases same : k = key
    · subst k
      by_cases found : key = other <;> simp [put, get?, found]
    · by_cases found : k = other
      · subst k
        simp [put, get?, same, Ne.symm same]
      · simp [put, get?, same, found, ih]

theorem get?_insertOrdered (key other : Nat) (value : α) (entries : Keyed Nat α) :
    get? other (insertOrdered key value entries) =
      if key = other then some value else get? other entries := by
  induction entries with
  | nil => simp [insertOrdered, get?]
  | cons entry rest ih =>
    obtain ⟨k, v⟩ := entry
    by_cases before : key < k
    · simp [insertOrdered, get?, before]
    · by_cases same : k = key
      · subst k
        by_cases found : key = other <;> simp [insertOrdered, get?, found]
      · by_cases found : k = other
        · subst k
          simp [insertOrdered, get?, before, same, Ne.symm same]
        · simp [insertOrdered, get?, before, same, found, ih]

theorem mem_of_get? {key : κ} {value : α} {entries : Keyed κ α}
    (h : get? key entries = some value) : (key, value) ∈ entries := by
  induction entries with
  | nil => simp at h
  | cons entry rest ih =>
    obtain ⟨k, v⟩ := entry
    simp only [get?] at h
    split at h
    · rename_i same
      subst same
      simp only [Option.some.injEq] at h
      simp [h]
    · exact List.mem_cons_of_mem _ (ih h)

end Keyed

end SctpTrace
