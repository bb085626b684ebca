import Mathlib.Data.List.Forall2

/-!
A list whose members stand, in order, among those of a larger one. `places` says where; what the two
lists have in common is found at related places, and changes outside of the places go unnoticed.
-/
namespace SctpTrace.Isolation

def At (places : List Nat) (j i : Nat) : Prop := places[j]? = some i

/-- The members of `big` with `mine` are those of `small`, up to `related`. -/
structure Embeds {α : Type} (related : α → α → Prop) (mine : α → Prop) (places : List Nat)
    (small big : List α) : Prop where
  increasing : places.Pairwise (· < ·)
  length : places.length = small.length
  known : ∀ j i, At places j i →
    ∃ a b, small[j]? = some a ∧ big[i]? = some b ∧ related a b ∧ mine b
  only : ∀ i b, big[i]? = some b → mine b → i ∈ places

variable {places more : List Nat} {i i' j j' n : Nat}

theorem mem_places_iff : i ∈ places ↔ ∃ j, At places j i := List.mem_iff_getElem?

theorem At.mem (there : At places j i) : i ∈ places := mem_places_iff.mpr ⟨j, there⟩

theorem At.lt (there : At places j i) : j < places.length :=
  (List.getElem?_eq_some_iff.mp there).1

theorem At.unique (there : At places j i) (other : At places j i') : i = i' :=
  Option.some.inj (there.symm.trans other)

theorem At.append (there : At places j i) (more : List Nat) : At (places ++ more) j i := by
  rw [At, List.getElem?_append_left there.lt]
  exact there

theorem at_append_last (places : List Nat) (n : Nat) : At (places ++ [n]) places.length n := by
  simp [At]

theorem at_append_iff : At (places ++ [n]) j i ↔ At places j i ∨ j = places.length ∧ i = n := by
  constructor
  · intro there
    by_cases old : j < places.length
    · left
      rwa [At, List.getElem?_append_left old] at there
    · right
      have last : j = places.length := by
        have := there.lt
        simp only [List.length_append, List.length_cons, List.length_nil] at this
        omega
      subst last
      exact ⟨rfl, there.unique (at_append_last places n)⟩
  · rintro (old | ⟨rfl, rfl⟩)
    · exact old.append _
    · exact at_append_last places i

theorem at_lt (increasing : places.Pairwise (· < ·)) (there : At places j i)
    (other : At places j' i') (before : j < j') : i < i' := by
  obtain ⟨bound, rfl⟩ := List.getElem?_eq_some_iff.mp there
  obtain ⟨bound', rfl⟩ := List.getElem?_eq_some_iff.mp other
  exact List.pairwise_iff_getElem.mp increasing j j' bound bound' before

theorem at_lt_iff (increasing : places.Pairwise (· < ·)) (there : At places j i)
    (other : At places j' i') : j < j' ↔ i < i' := by
  refine ⟨at_lt increasing there other, fun before => ?_⟩
  rcases Nat.lt_trichotomy j j' with first | same | later
  · exact first
  · subst same
    have := there.unique other
    omega
  · have := at_lt increasing other there later
    omega

theorem at_inj (increasing : places.Pairwise (· < ·)) (there : At places j i)
    (other : At places j' i) : j = j' := by
  rcases Nat.lt_trichotomy j j' with first | same | later
  · have := at_lt increasing there other first
    omega
  · exact same
  · have := at_lt increasing other there later
    omega

theorem at_mem_iff (increasing : places.Pairwise (· < ·)) {bucket bucket' : List Nat}
    (same : List.Forall₂ (At places) bucket bucket') (there : At places j i) :
    j ∈ bucket ↔ i ∈ bucket' := by
  induction same with
  | nil => simp
  | cons here later ih =>
    rename_i a b rest rest'
    rw [List.mem_cons, List.mem_cons, ih]
    have first : j = a ↔ i = b := by
      constructor
      · rintro rfl
        exact there.unique here
      · rintro rfl
        exact at_inj increasing there here
    rw [first]

namespace Embeds

variable {α : Type} {related related' : α → α → Prop} {mine mine' : α → Prop} {small big : List α}
  {a b : α}

theorem nil (related : α → α → Prop) (mine : α → Prop) : Embeds related mine [] [] [] := by
  refine ⟨.nil, rfl, ?_, ?_⟩
  · intro j i there
    cases there
  · intro i b there
    cases there

theorem place_lt (embeds : Embeds related mine places small big) (there : i ∈ places) :
    i < big.length := by
  obtain ⟨j, here⟩ := mem_places_iff.mp there
  obtain ⟨a, b, -, found, -⟩ := embeds.known j i here
  exact (List.getElem?_eq_some_iff.mp found).1

theorem exists_place (embeds : Embeds related mine places small big) (found : small[j]? = some a) :
    ∃ i b, At places j i ∧ big[i]? = some b ∧ related a b ∧ mine b := by
  have inside := (List.getElem?_eq_some_iff.mp found).1
  rw [← embeds.length] at inside
  have there : At places j places[j] := List.getElem?_eq_getElem inside
  obtain ⟨a', b, inSmall, inBig, same⟩ := embeds.known j _ there
  obtain rfl := Option.some.inj (found.symm.trans inSmall)
  exact ⟨places[j], b, there, inBig, same⟩

theorem exists_number (embeds : Embeds related mine places small big) (there : i ∈ places) :
    ∃ j < small.length, At places j i := by
  obtain ⟨j, here⟩ := mem_places_iff.mp there
  have inside := here.lt
  rw [embeds.length] at inside
  exact ⟨j, inside, here⟩

theorem imp (embeds : Embeds related mine places small big)
    (weaker : ∀ a b, related a b → related' a b) (same : ∀ b ∈ big, mine b ↔ mine' b) :
    Embeds related' mine' places small big := by
  refine ⟨embeds.increasing, embeds.length, ?_, ?_⟩
  · intro j i there
    obtain ⟨a, b, inSmall, inBig, here, claimed⟩ := embeds.known j i there
    exact ⟨a, b, inSmall, inBig, weaker a b here, (same b (List.mem_of_getElem? inBig)).mp claimed⟩
  · intro i b there claimed
    exact embeds.only i b there ((same b (List.mem_of_getElem? there)).mpr claimed)

theorem getElem?_append_of_some {l : List α} (found : l[i]? = some b) (a : α) :
    (l ++ [a])[i]? = some b := by
  rw [List.getElem?_append_left (List.getElem?_eq_some_iff.mp found).1, found]

theorem push (embeds : Embeds related mine places small big) (new : related a b)
    (claimed : mine b) :
    Embeds related mine (places ++ [big.length]) (small ++ [a]) (big ++ [b]) := by
  refine ⟨?_, by simp [embeds.length], ?_, ?_⟩
  · rw [List.pairwise_append]
    refine ⟨embeds.increasing, List.pairwise_singleton _ _, ?_⟩
    intro i there n last
    rw [List.mem_singleton.mp last]
    exact embeds.place_lt there
  · intro j i there
    rcases at_append_iff.mp there with old | ⟨rfl, rfl⟩
    · obtain ⟨c, d, inSmall, inBig, here⟩ := embeds.known j i old
      exact ⟨c, d, getElem?_append_of_some inSmall a, getElem?_append_of_some inBig b, here⟩
    · exact ⟨a, b, by simp [embeds.length], by simp, new, claimed⟩
  · intro i d there own
    rw [List.getElem?_append] at there
    rw [List.mem_append]
    split at there
    · exact Or.inl (embeds.only i d there own)
    · have last := (List.getElem?_eq_some_iff.mp there).1
      simp only [List.length_cons, List.length_nil] at last
      exact Or.inr (List.mem_singleton.mpr (by omega))

theorem pushOther (embeds : Embeds related mine places small big) (foreign : ¬ mine b) :
    Embeds related mine places small (big ++ [b]) := by
  refine ⟨embeds.increasing, embeds.length, ?_, ?_⟩
  · intro j i there
    obtain ⟨a, c, inSmall, inBig, here⟩ := embeds.known j i there
    exact ⟨a, c, inSmall, getElem?_append_of_some inBig b, here⟩
  · intro i d there own
    rw [List.getElem?_append] at there
    split at there
    · exact embeds.only i d there own
    · obtain ⟨_, here⟩ := List.getElem?_eq_some_iff.mp there
      simp only [List.getElem_singleton] at here
      rw [here] at foreign
      exact absurd own foreign

theorem modify (embeds : Embeds related mine places small big) (there : At places j i)
    {f g : α → α} (kept : ∀ a b, related a b → related (f a) (g b)) (own : ∀ b, mine b → mine (g b)) :
    Embeds related mine places (small.modify j f) (big.modify i g) := by
  refine ⟨embeds.increasing, by rw [embeds.length, List.length_modify], ?_, ?_⟩
  · intro j' i' other
    obtain ⟨a, b, inSmall, inBig, here, claimed⟩ := embeds.known j' i' other
    have same : j = j' ↔ i = i' := by
      constructor
      · rintro rfl
        exact there.unique other
      · rintro rfl
        exact at_inj embeds.increasing there other
    rw [List.getElem?_modify, List.getElem?_modify, inSmall, inBig]
    by_cases this_one : j = j'
    · simp only [this_one, same.mp this_one, ↓reduceIte]
      exact ⟨f a, g b, rfl, rfl, kept a b here, own b claimed⟩
    · simp only [this_one, mt same.mpr this_one, ↓reduceIte]
      exact ⟨a, b, rfl, rfl, here, claimed⟩
  · intro i' b found claimed
    rw [List.getElem?_modify] at found
    split at found
    · rename_i here
      rw [← here]
      exact there.mem
    · exact embeds.only i' b (by simpa using found) claimed

theorem modifyOther (embeds : Embeds related mine places small big) (outside : i ∉ places)
    {g : α → α} (foreign : ∀ b, mine (g b) → mine b) :
    Embeds related mine places small (big.modify i g) := by
  refine ⟨embeds.increasing, embeds.length, ?_, ?_⟩
  · intro j i' there
    have apart : i ≠ i' := by
      rintro rfl
      exact outside there.mem
    obtain ⟨a, b, inSmall, inBig, here⟩ := embeds.known j i' there
    rw [List.getElem?_modify, inBig]
    simp only [apart, ↓reduceIte]
    exact ⟨a, b, inSmall, rfl, here⟩
  · intro i' b found claimed
    rw [List.getElem?_modify] at found
    split at found
    · obtain ⟨c, old, rfl⟩ := Option.map_eq_some_iff.mp found
      exact embeds.only i' c old (foreign c claimed)
    · exact embeds.only i' b (by simpa using found) claimed

theorem set (embeds : Embeds related mine places small big) (there : At places j i)
    (new : related a b) (claimed : mine b) :
    Embeds related mine places (small.set j a) (big.set i b) := by
  rw [List.set_eq_modify, List.set_eq_modify]
  exact embeds.modify there (fun _ _ _ => new) fun _ _ => claimed

theorem setOther (embeds : Embeds related mine places small big) (outside : i ∉ places)
    (foreign : ¬ mine b) : Embeds related mine places small (big.set i b) := by
  rw [List.set_eq_modify]
  exact embeds.modifyOther outside fun _ claimed => absurd claimed foreign

/- What is found first in one list is found first in the other: the places are in order, and what the
   larger list holds elsewhere is not looked for. -/
theorem findIdx? (embeds : Embeds related mine places small big) {p q : α → Bool}
    (agree : ∀ a b, related a b → p a = q b) (own : ∀ b, q b = true → mine b) :
    Option.Rel (At places) (small.findIdx? p) (big.findIdx? q) := by
  have claimed : ∀ i b, big[i]? = some b → q b = true →
      ∃ j a, At places j i ∧ small[j]? = some a ∧ p a = true := by
    intro i b there wanted
    obtain ⟨j, here⟩ := mem_places_iff.mp (embeds.only i b there (own b wanted))
    obtain ⟨a, c, inSmall, inBig, same, -⟩ := embeds.known j i here
    rw [there] at inBig
    cases inBig
    exact ⟨j, a, here, inSmall, (agree a b same).trans wanted⟩
  cases found : small.findIdx? p with
  | none =>
    have absent : big.findIdx? q = none := by
      rw [List.findIdx?_eq_none_iff] at found ⊢
      intro b member
      rw [Bool.eq_false_iff]
      intro wanted
      obtain ⟨i, there⟩ := List.mem_iff_getElem?.mp member
      obtain ⟨j, a, -, inSmall, hit⟩ := claimed i b there wanted
      rw [found a (List.mem_of_getElem? inSmall)] at hit
      cases hit
    rw [absent]
    exact .none
  | some j =>
    obtain ⟨bound, hit, first⟩ := List.findIdx?_eq_some_iff_getElem.mp found
    have place : ∃ i, At places j i :=
      ⟨_, List.getElem?_eq_getElem (by rw [embeds.length]; exact bound)⟩
    obtain ⟨i, there⟩ := place
    obtain ⟨a, b, inSmall, inBig, same, -⟩ := embeds.known j i there
    obtain ⟨boundBig, rfl⟩ := List.getElem?_eq_some_iff.mp inBig
    obtain ⟨_, rfl⟩ := List.getElem?_eq_some_iff.mp inSmall
    have here : big.findIdx? q = some i := by
      rw [List.findIdx?_eq_some_iff_getElem]
      refine ⟨boundBig, (agree _ _ same).symm.trans hit, ?_⟩
      intro i' before wanted
      obtain ⟨j', c, other, inSmall', hit'⟩ := claimed i' _ (List.getElem?_eq_getElem _) wanted
      obtain ⟨bound', rfl⟩ := List.getElem?_eq_some_iff.mp inSmall'
      exact first j' ((at_lt_iff embeds.increasing other there).mpr before) hit'
    rw [here]
    exact .some there

end Embeds

theorem findSome?_rel {α β γ δ : Type} {R : α → β → Prop} {Q : γ → δ → Prop} {f : α → Option γ}
    {g : β → Option δ} {l : List α} {l' : List β} (same : List.Forall₂ R l l')
    (agree : ∀ a b, R a b → Option.Rel Q (f a) (g b)) :
    Option.Rel Q (l.findSome? f) (l'.findSome? g) := by
  induction same with
  | nil => exact .none
  | cons here later ih =>
    rw [List.findSome?_cons, List.findSome?_cons]
    have first := agree _ _ here
    revert first
    generalize f _ = found, g _ = found'
    intro first
    cases first with
    | some both => exact .some both
    | none => exact ih

end SctpTrace.Isolation
