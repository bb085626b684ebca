/-!
Numbers on the circle of 32-bit words. `distance first t` counts the steps from `first` forward to
`t`; the arc from `first` to `last` holds the positions met on the way, both ends included
(`mem_arc_iff`).
-/
namespace SctpTrace.Serial

def distance (first t : UInt32) : Nat := (t - first).toNat

def forward (first : UInt32) (steps : Nat) : UInt32 := first + UInt32.ofNat steps

def arc (first last : UInt32) : List UInt32 :=
  (List.range (distance first last + 1)).map (forward first)

def onArc (first last t : UInt32) : Bool := distance first t ≤ distance first last

theorem distance_lt (first t : UInt32) : distance first t < 4294967296 := (t - first).toNat_lt

@[simp] theorem distance_self (first : UInt32) : distance first first = 0 := by
  simp [distance]

theorem distance_forward {steps : Nat} (first : UInt32) (h : steps < 4294967296) :
    distance first (forward first steps) = steps := by
  have cancel : first + UInt32.ofNat steps - first = UInt32.ofNat steps := by
    rw [UInt32.add_comm, UInt32.add_sub_cancel]
  simp only [distance, forward, cancel, UInt32.toNat_ofNat']
  omega

theorem forward_distance (first t : UInt32) : forward first (distance first t) = t := by
  simp only [forward, distance, UInt32.ofNat_toNat]
  rw [UInt32.add_comm, UInt32.sub_add_cancel]

theorem distance_inj {first s t : UInt32} (h : distance first s = distance first t) : s = t := by
  rw [← forward_distance first s, ← forward_distance first t, h]

theorem length_arc (first last : UInt32) :
    (arc first last).length = distance first last + 1 := by
  simp [arc]

theorem mem_arc_iff {first last t : UInt32} :
    t ∈ arc first last ↔ distance first t ≤ distance first last := by
  simp only [arc, List.mem_map, List.mem_range]
  constructor
  · rintro ⟨steps, bound, rfl⟩
    have := distance_lt first last
    rw [distance_forward first (by omega)]
    omega
  · intro h
    exact ⟨distance first t, by omega, forward_distance first t⟩

theorem onArc_iff_mem {first last t : UInt32} : onArc first last t = true ↔ t ∈ arc first last := by
  simp [onArc, mem_arc_iff]

theorem nodup_arc (first last : UInt32) : (arc first last).Nodup := by
  have bound := distance_lt first last
  refine List.pairwise_map.mpr (List.Pairwise.imp_of_mem ?_ List.nodup_range)
  intro a b ha hb different same
  rw [List.mem_range] at ha hb
  apply different
  rw [← distance_forward first (show a < 4294967296 by omega),
    ← distance_forward first (show b < 4294967296 by omega), same]

end SctpTrace.Serial
