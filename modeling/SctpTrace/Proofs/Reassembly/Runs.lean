import SctpTrace.Proofs.Circle
import SctpTrace.Reassembly.Fragments

/-!
Which runs of positions make a message. `Run.Whole` says it from the boundaries of the single
fragments; two whole runs never meet (`whole_unique`).
-/
namespace SctpTrace.Reassembly

open Serial

structure Edges where
  isFirst : Bool
  isLast : Bool
  deriving DecidableEq, Repr

namespace Run

def length (run : Run) : Nat := distance run.first run.last + 1

def covers (run : Run) (t : UInt32) : Bool := onArc run.first run.last t

/-- Every position is there, the first one alone opens a message and the last one alone closes it. -/
def Whole (edges : UInt32 → Option Edges) (run : Run) : Prop :=
  ∀ k < run.length, edges (forward run.first k) = some ⟨k == 0, k + 1 == run.length⟩

instance (edges : UInt32 → Option Edges) (run : Run) : Decidable (run.Whole edges) :=
  inferInstanceAs (Decidable (∀ k < run.length, _))

theorem length_le (run : Run) : run.length ≤ 4294967296 := by
  have := distance_lt run.first run.last
  simp only [length]
  omega

theorem length_pos (run : Run) : 0 < run.length := by simp [length]

theorem forward_last (run : Run) : forward run.first (run.length - 1) = run.last := by
  simp [length, forward_distance]

theorem forward_eq_first_iff {run : Run} {k : Nat} (inside : k < run.length) :
    forward run.first k = run.first ↔ k = 0 := by
  have bound := run.length_le
  constructor
  · intro same
    rw [← forward_zero run.first] at same
    exact forward_inj (by omega) (by omega) (by simpa using same)
  · rintro rfl
    exact forward_zero run.first

theorem forward_eq_last_iff {run : Run} {k : Nat} (inside : k < run.length) :
    forward run.first k = run.last ↔ k + 1 = run.length := by
  have bound := run.length_le
  rw [← run.forward_last]
  constructor
  · intro same
    have := forward_inj (by omega) (by omega) same
    omega
  · intro final
    rw [show run.length - 1 = k by omega]

theorem covers_iff {run : Run} {t : UInt32} :
    run.covers t = true ↔ distance run.first t < run.length := by
  simp only [covers, onArc_iff, length]
  omega

theorem covers_forward {run : Run} {k : Nat} (h : k < run.length) :
    run.covers (forward run.first k) = true := by
  have := run.length_le
  rw [covers_iff, distance_forward run.first (by omega)]
  exact h

theorem mem_arc_iff {run : Run} {t : UInt32} :
    t ∈ arc run.first run.last ↔ run.covers t = true :=
  onArc_iff_mem.symm

theorem covers_first (run : Run) : run.covers run.first = true := by
  simp [covers_iff, length]

theorem covers_last (run : Run) : run.covers run.last = true := by
  simp [covers_iff, length]

variable {edges : UInt32 → Option Edges} {run other : Run} {t : UInt32}

theorem Whole.edges_at (whole : run.Whole edges) (inside : run.covers t = true) :
    edges t = some ⟨distance run.first t == 0, distance run.first t + 1 == run.length⟩ := by
  have found := whole (distance run.first t) (covers_iff.mp inside)
  rwa [forward_distance] at found

theorem Whole.first_of_isFirst (whole : run.Whole edges) (inside : run.covers t = true)
    {e : Edges} (found : edges t = some e) (opens : e.isFirst = true) : t = run.first := by
  rw [whole.edges_at inside] at found
  cases found
  have none_between : distance run.first t = 0 := by simpa using opens
  exact distance_inj (none_between.trans (distance_self run.first).symm)

theorem Whole.last_of_isLast (whole : run.Whole edges) (inside : run.covers t = true)
    {e : Edges} (found : edges t = some e) (closes : e.isLast = true) : t = run.last := by
  rw [whole.edges_at inside] at found
  cases found
  have full : distance run.first t = distance run.first run.last := by
    simpa [length] using closes
  exact distance_inj full

theorem Whole.edges_first (whole : run.Whole edges) :
    ∃ e, edges run.first = some e ∧ e.isFirst = true :=
  ⟨_, whole.edges_at run.covers_first, by simp⟩

theorem Whole.edges_last (whole : run.Whole edges) :
    ∃ e, edges run.last = some e ∧ e.isLast = true :=
  ⟨_, whole.edges_at run.covers_last, by simp [length]⟩

/- Of two whole runs around one position, the nearer first boundary lies within the other run, so
   it is that run's first boundary too. -/
theorem Whole.first_eq (whole : run.Whole edges) (wholeOther : other.Whole edges)
    (there : other.covers t = true)
    (nearer : distance run.first t ≤ distance other.first t) : run.first = other.first := by
  obtain ⟨e, found, opens⟩ := whole.edges_first
  have inside : other.covers run.first = true := by
    rw [covers_iff] at there ⊢
    rw [distance_of_nearer nearer]
    omega
  exact wholeOther.first_of_isFirst inside found opens

theorem Whole.last_eq (whole : run.Whole edges) (wholeOther : other.Whole edges)
    (there : other.covers t = true)
    (nearer : distance t run.last ≤ distance t other.last) : run.last = other.last := by
  obtain ⟨e, found, closes⟩ := whole.edges_last
  have inside : other.covers run.last = true := by
    have split := distance_split (onArc_iff.mp there)
    have ahead := distance_to_nearer nearer
    rw [covers_iff, length]
    have bound := distance_lt other.first other.last
    have place := distance_forward_add other.first t (distance t run.last) (by omega)
    rw [forward_distance] at place
    omega
  exact wholeOther.last_of_isLast inside found closes

theorem whole_unique (whole : run.Whole edges) (here : run.covers t = true)
    (wholeOther : other.Whole edges) (there : other.covers t = true) : run = other := by
  have first : run.first = other.first := by
    rcases Nat.le_total (distance run.first t) (distance other.first t) with le | le
    · exact whole.first_eq wholeOther there le
    · exact (wholeOther.first_eq whole here le).symm
  have last : run.last = other.last := by
    rcases Nat.le_total (distance t run.last) (distance t other.last) with le | le
    · exact whole.last_eq wholeOther there le
    · exact (wholeOther.last_eq whole here le).symm
  cases run
  cases other
  simp_all

theorem Whole.mono {more : UInt32 → Option Edges} (whole : run.Whole edges)
    (kept : ∀ t e, edges t = some e → more t = some e) : run.Whole more :=
  fun k bound => kept _ _ (whole k bound)

theorem Whole.congr {same : UInt32 → Option Edges} (whole : run.Whole edges)
    (agree : ∀ t, run.covers t = true → same t = edges t) : run.Whole same :=
  fun k bound => (agree _ (covers_forward bound)).trans (whole k bound)

end Run

end SctpTrace.Reassembly
