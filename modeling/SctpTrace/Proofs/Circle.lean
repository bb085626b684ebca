import SctpTrace.Serial

/-!
More on the circle of 32-bit words: steps forward, places between two others, and what a turn of
the whole circle by `k` leaves as it is.
-/
namespace SctpTrace.Serial

@[simp] theorem forward_zero (first : UInt32) : forward first 0 = first := by
  simp [forward]

theorem forward_succ (first : UInt32) (steps : Nat) :
    forward first steps + 1 = forward first (steps + 1) := by
  simp only [forward, UInt32.ofNat_add]
  rw [UInt32.add_assoc]
  rfl

theorem forward_add (first : UInt32) (m n : Nat) :
    forward (forward first m) n = forward first (m + n) := by
  simp only [forward, UInt32.ofNat_add, UInt32.add_assoc]

theorem forward_inj {first : UInt32} {m n : Nat} (hm : m < 4294967296) (hn : n < 4294967296)
    (same : forward first m = forward first n) : m = n := by
  rw [← distance_forward first hm, ← distance_forward first hn, same]

theorem distance_forward_add (first t : UInt32) (n : Nat)
    (bound : distance first t + n < 4294967296) :
    distance first (forward t n) = distance first t + n := by
  have place : forward t n = forward first (distance first t + n) := by
    rw [← forward_add, forward_distance]
  rw [place, distance_forward first bound]

theorem distance_forward_forward {first : UInt32} {m n : Nat} (ordered : m ≤ n)
    (bound : n < 4294967296) : distance (forward first m) (forward first n) = n - m := by
  have place : forward first n = forward (forward first m) (n - m) := by
    rw [forward_add, Nat.add_sub_cancel' ordered]
  rw [place, distance_forward _ (by omega)]

theorem distance_of_nearer {first p t : UInt32} (nearer : distance p t ≤ distance first t) :
    distance first p = distance first t - distance p t := by
  have hf := first.toNat_lt
  have hp := p.toNat_lt
  have ht := t.toNat_lt
  simp only [distance, UInt32.toNat_sub] at nearer ⊢
  omega

theorem distance_to_nearer {p t last : UInt32} (nearer : distance t p ≤ distance t last) :
    distance p last = distance t last - distance t p := by
  have hp := p.toNat_lt
  have ht := t.toNat_lt
  have hl := last.toNat_lt
  simp only [distance, UInt32.toNat_sub] at nearer ⊢
  omega

theorem distance_split {first t last : UInt32} (between : distance first t ≤ distance first last) :
    distance first t + distance t last = distance first last := by
  have hf := first.toNat_lt
  have ht := t.toNat_lt
  have hl := last.toNat_lt
  simp only [distance, UInt32.toNat_sub] at between ⊢
  omega

theorem distance_left_inj {p q t : UInt32} (same : distance p t = distance q t) : p = q := by
  have hp := p.toNat_lt
  have hq := q.toNat_lt
  have ht := t.toNat_lt
  apply UInt32.toNat.inj
  simp only [distance, UInt32.toNat_sub] at same
  omega

theorem onArc_iff {first last t : UInt32} :
    onArc first last t = true ↔ distance first t ≤ distance first last := by
  simp [onArc]

/-- Between two ends the positions are those of the range, or those outside it when the arc passes
the wrap. -/
theorem onArc_eq_range (first last t : UInt32) :
    onArc first last t =
      if first ≤ last then decide (first ≤ t ∧ t ≤ last) else decide (first ≤ t ∨ t ≤ last) := by
  have hf := first.toNat_lt
  have hl := last.toNat_lt
  have ht := t.toNat_lt
  simp only [onArc, distance, UInt32.le_iff_toNat_le, UInt32.toNat_sub]
  split <;> simp only [decide_eq_decide] <;> omega

theorem distance_add_right (first t k : UInt32) :
    distance (first + k) (t + k) = distance first t := by
  have turned : t + k - (first + k) = t - first := by grind
  rw [distance, distance, turned]

theorem forward_add_right (first k : UInt32) (steps : Nat) :
    forward (first + k) steps = forward first steps + k := by
  simp only [forward]
  grind

theorem onArc_add_right (first last t k : UInt32) :
    onArc (first + k) (last + k) (t + k) = onArc first last t := by
  simp only [onArc, distance_add_right]

theorem arc_add_right (first last k : UInt32) :
    arc (first + k) (last + k) = (arc first last).map (· + k) := by
  simp only [arc, distance_add_right, List.map_map]
  apply List.map_congr_left
  intro steps _
  exact forward_add_right first k steps

end SctpTrace.Serial
