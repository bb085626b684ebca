import SctpTrace.Proofs.Reassembly.Attempts

/-!
The two walks around the circle. Each goes from one position to the next until one ends it (`Trail`),
and neither counts its steps. The search for a run ends within the stored fragments, whatever their
boundaries: only a full circle would take it back to a fragment that it has passed, and on a full
circle it meets its last position (`trail_of_search`). Joining a message looks for its last position
only; it is begun on a whole run, and there it meets each fragment of the message once
(`Gathering.foldl_take`).
-/
namespace SctpTrace.Reassembly

open Serial

/-- The positions of a walk, from the first to the one that ends it. -/
inductive Trail (ends : UInt32 → Bool) : UInt32 → List UInt32 → Prop where
  | last {t : UInt32} (ended : ends t = true) : Trail ends t [t]
  | onward {t : UInt32} {later : List UInt32} (passed : ends t = false)
      (rest : Trail ends (t + 1) later) : Trail ends t (t :: later)

def stretch (t : UInt32) (n : Nat) : List UInt32 := (List.range n).map (forward t)

section

variable {ends : UInt32 → Bool} {t : UInt32} {n : Nat}

theorem forward_next (t : UInt32) (n : Nat) : forward (t + 1) n = forward t (n + 1) := by
  rw [Nat.add_comm n 1, ← forward_add]
  rfl

theorem stretch_succ (t : UInt32) (n : Nat) : stretch t (n + 1) = t :: stretch (t + 1) n := by
  simp only [stretch, List.range_succ_eq_map, List.map_cons, List.map_map, forward_zero]
  refine congrArg _ (List.map_congr_left fun k _ => ?_)
  exact (forward_next t k).symm

theorem nodup_stretch (t : UInt32) (bound : n ≤ 4294967296) : (stretch t n).Nodup := by
  refine List.Nodup.map_on ?_ List.nodup_range
  intro j hj k hk same
  rw [List.mem_range] at hj hk
  exact forward_inj (by omega) (by omega) same

theorem trail_stretch (passed : ∀ k < n, ends (forward t k) = false)
    (ended : ends (forward t n) = true) : Trail ends t (stretch t (n + 1)) := by
  induction n generalizing t with
  | zero =>
    rw [forward_zero] at ended
    rw [stretch_succ]
    exact .last ended
  | succ n ih =>
    have here := passed 0 (by omega)
    rw [forward_zero] at here
    rw [stretch_succ]
    refine .onward here (ih ?_ ?_)
    · intro k inside
      rw [forward_next]
      exact passed (k + 1) (by omega)
    · rw [forward_next]
      exact ended

theorem exists_trail (ended : ends (forward t n) = true) :
    ∃ trail, Trail ends t trail ∧ trail.length ≤ n + 1 := by
  induction n generalizing t with
  | zero =>
    rw [forward_zero] at ended
    exact ⟨[t], .last ended, Nat.le_refl 1⟩
  | succ n ih =>
    cases here : ends t with
    | true => exact ⟨[t], .last here, by simp⟩
    | false =>
      rw [← forward_next] at ended
      obtain ⟨later, rest, bound⟩ := ih ended
      refine ⟨t :: later, .onward here rest, ?_⟩
      rw [List.length_cons]
      omega

end

namespace Fragments

def ending? (s : Fragments) (run : Run) (t : UInt32) : Option Walk :=
  match s.fragment? t with
  | none => some .blocked
  | some f =>
    if f.isConsumed || (t != run.first && f.isFirst) then some .blocked
    else if t = run.last then some .arrived
    else if f.isLast then some .blocked
    else none

def endsAt (s : Fragments) (run : Run) (t : UInt32) : Bool := (s.ending? run t).isSome

variable {s : Fragments} {run : Run} {t : UInt32} {n : Nat} {trail : List UInt32}

theorem walk_step (steps : Nat) : s.walk run (steps + 1) t =
    match s.ending? run t with
    | some outcome => outcome
    | none => s.walk run steps (t + 1) := by
  simp only [walk, ending?]
  cases s.fragment? t with
  | none => rfl
  | some f => grind

theorem walk_of_trail {steps : Nat} (walked : Trail (s.endsAt run) t trail)
    (enough : trail.length ≤ steps) :
    trail.getLast?.bind (s.ending? run) = some (s.walk run steps t) := by
  induction walked generalizing steps with
  | last ended =>
    obtain ⟨outcome, here⟩ := Option.isSome_iff_exists.mp ended
    cases steps with
    | zero => simp at enough
    | succ steps => simp [walk_step, here]
  | onward passed rest ih =>
    have here := Option.not_isSome_iff_eq_none.mp (Bool.eq_false_iff.mp passed)
    cases steps with
    | zero => simp at enough
    | succ steps =>
      rw [walk_step, here, ← ih (Nat.le_of_succ_le_succ enough)]
      cases rest <;> rfl

theorem passed_of_ending? (passed : s.ending? run t = none) :
    t ≠ run.last ∧ t ∈ s.stored.map (·.position) := by
  unfold ending? at passed
  cases here : s.fragment? t with
  | none => simp [here] at passed
  | some f =>
    rw [here] at passed
    have place : f.position = t := by simpa using List.find?_some here
    refine ⟨?_, List.mem_map.mpr ⟨f, List.mem_of_find?_eq_some here, place⟩⟩
    rintro rfl
    grind

/- One position more than there are fragments, all of them different, unless the walk comes around
the circle and meets the last position of the run. -/
theorem exists_ending (s : Fragments) (run : Run) :
    ∃ n ≤ s.stored.length, s.endsAt run (forward run.first n) = true := by
  by_contra endless
  have passed : ∀ n ≤ s.stored.length, s.ending? run (forward run.first n) = none := by
    intro n bound
    by_contra ended
    exact endless ⟨n, bound, Option.isSome_iff_ne_none.mpr ended⟩
  by_cases around : s.stored.length < 4294967296
  · have inside : stretch run.first (s.stored.length + 1) ⊆ s.stored.map (·.position) := by
      intro t there
      obtain ⟨k, bound, rfl⟩ := List.mem_map.mp there
      rw [List.mem_range] at bound
      exact (passed_of_ending? (passed k (by omega))).2
    have count := (nodup_stretch run.first (by omega)).length_le_of_subset inside
    simp only [stretch, List.length_map, List.length_range] at count
    omega
  · have bound := distance_lt run.first run.last
    have met := (passed_of_ending? (passed (distance run.first run.last) (by omega))).1
    exact met (forward_distance run.first run.last)

theorem trail_of_search (s : Fragments) (run : Run) :
    ∃ trail, Trail (s.endsAt run) run.first trail ∧ trail.length ≤ s.stored.length + 1 ∧
      trail.getLast?.bind (s.ending? run) = some (s.walkWhole run) := by
  obtain ⟨n, bound, ended⟩ := s.exists_ending run
  obtain ⟨trail, walked, short⟩ := exists_trail ended
  exact ⟨trail, walked, by omega, walk_of_trail walked (by omega)⟩

end Fragments

/- Joining a message. -/

/-- What a message is joined from: the fragments as they are by now, and the frames and the octets
that were taken from them. -/
structure Gathering where
  stored : List Fragment
  frames : List FrameNumber
  data : Bytes
  deriving DecidableEq, Repr

namespace Gathering

def fragment? (g : Gathering) (t : UInt32) : Option Fragment :=
  g.stored.find? fun f => f.position == t

def take (g : Gathering) (t : UInt32) : Gathering :=
  match g.fragment? t with
  | none => g
  | some f =>
    { stored := g.stored.map fun other => if other.position = t then other.consumed else other
      frames := g.frames ++ [f.frame]
      data := g.data ++ f.payload.getD [] }

/-- The fragments at some positions, each as it is when its turn comes. -/
def met : Gathering → List UInt32 → List (Option Fragment)
  | _, [] => []
  | g, t :: rest => g.fragment? t :: (g.take t).met rest

variable {g : Gathering} {t u : UInt32} {trail : List UInt32}

theorem take_eq (g : Gathering) (t : UInt32) : g.take t =
    { stored := g.stored.map fun f => if f.position = t then f.consumed else f
      frames := g.frames ++ (g.fragment? t).toList.map (·.frame)
      data := g.data ++ (g.fragment? t).toList.flatMap fun f => f.payload.getD [] } := by
  unfold take
  cases here : g.fragment? t with
  | none =>
    have absent := find?_key_eq_none_iff.mp here
    have same : ∀ f ∈ g.stored, (if f.position = t then f.consumed else f) = f := by
      intro f there
      apply if_neg
      rintro rfl
      exact absent (List.mem_map_of_mem there)
    simp [List.map_congr_left same]
  | some f => simp

theorem fragment?_take (other : u ≠ t) : (g.take t).fragment? u = g.fragment? u := by
  have unmoved : ((fun f : Fragment => f.position == u) ∘
      fun f => if f.position = t then f.consumed else f) = fun f => f.position == u := by
    funext f
    simp only [Function.comp_apply]
    split <;> rfl
  rw [take_eq, fragment?, List.find?_map, unmoved]
  change (g.fragment? u).map _ = g.fragment? u
  cases here : g.fragment? u with
  | none => rfl
  | some f =>
    have place : f.position = u := by simpa using List.find?_some here
    rw [Option.map_some, if_neg (place ▸ other)]

theorem met_eq (distinct : trail.Nodup) : g.met trail = trail.map g.fragment? := by
  induction trail generalizing g with
  | nil => rfl
  | cons t rest ih =>
    obtain ⟨new, distinct⟩ := List.nodup_cons.mp distinct
    rw [met, ih distinct, List.map_cons]
    refine congrArg _ (List.map_congr_left fun u there => fragment?_take ?_)
    rintro rfl
    exact new there

theorem consume_cons (new : t ∉ trail) (f : Fragment) :
    (if (if f.position = t then f.consumed else f).position ∈ trail then
      (if f.position = t then f.consumed else f).consumed
    else if f.position = t then f.consumed else f) =
      if f.position ∈ t :: trail then f.consumed else f := by
  by_cases here : f.position = t
  · have placed : f.consumed.position = t := here
    simp [here, placed, new]
  · simp [here]

theorem foldl_take (distinct : trail.Nodup) : trail.foldl take g =
    { stored := g.stored.map fun f => if f.position ∈ trail then f.consumed else f
      frames := g.frames ++ (trail.filterMap g.fragment?).map (·.frame)
      data := g.data ++ (trail.filterMap g.fragment?).flatMap fun f => f.payload.getD [] } := by
  induction trail generalizing g with
  | nil => simp
  | cons t rest ih =>
    obtain ⟨new, distinct⟩ := List.nodup_cons.mp distinct
    have others : rest.filterMap (g.take t).fragment? = rest.filterMap g.fragment? := by
      refine List.filterMap_congr fun u there => fragment?_take ?_
      rintro rfl
      exact new there
    rw [List.foldl_cons, ih distinct, others, take_eq]
    simp only [List.map_map, Function.comp_def, consume_cons new]
    cases here : g.fragment? t <;> simp [here]

end Gathering

namespace Fragments

variable {arrivals : List Arrival} {s : Fragments} {run : Run} {t : UInt32} {frame : FrameNumber}

def gathering (s : Fragments) : Gathering := ⟨s.stored, [], []⟩

theorem trail_arc (first last : UInt32) : Trail (· == last) first (arc first last) := by
  refine trail_stretch ?_ ?_
  · intro k before
    have bound := distance_lt first last
    rw [beq_eq_false_iff_ne]
    intro met
    have place := distance_forward first (show k < 4294967296 by omega)
    rw [met] at place
    omega
  · rw [forward_distance]
    exact beq_self_eq_true last

structure WalksEnd (s : Fragments) (t : UInt32) (frame : FrameNumber) : Prop where
  /-- The search, between whatever boundaries, after one step more than there are fragments at
  most, and with the outcome that it has at the last position. -/
  search : ∀ run : Run, ∃ trail, Trail (s.endsAt run) run.first trail ∧
    trail.length ≤ s.stored.length + 1 ∧
    trail.getLast?.bind (s.ending? run) = some (s.walkWhole run)
  /-- The joining of a message at its last position, after as many steps as it has positions. -/
  join : ∀ m, (s.reassemble t frame).2 = .completed m →
    Trail (· == m.last) m.first (arc m.first m.last) ∧
      (arc m.first m.last).length = m.run.length ∧ (arc m.first m.last).Nodup
  /-- Each fragment is there when its turn comes, and not consumed. -/
  met : ∀ m, (s.reassemble t frame).2 = .completed m →
    ∀ found ∈ s.gathering.met (arc m.first m.last), ∃ f, found = some f ∧ f.isConsumed = false
  /-- What was gathered is the message. -/
  gathered : ∀ m, (s.reassemble t frame).2 = .completed m →
    ∃ frames, (arc m.first m.last).foldl Gathering.take s.gathering =
      ⟨(s.reassemble t frame).1.stored, frames, m.data⟩ ∧ withoutRepeats frames = m.frames

theorem Consistent.walksEnd (consistent : Consistent arrivals s) : s.WalksEnd t frame := by
  have entered : ∀ m, (s.reassemble t frame).2 = .completed m → ∃ run : Run,
      run.Whole s.waiting? ∧ s.reassemble t frame = (s.assemble run frame, .completed m) ∧
        m = s.message run frame := by
    intro m completed
    have attempted := consistent.marked.attempted t frame
    generalize s.reassemble t frame = outcome at attempted completed ⊢
    cases attempted with
    | again => cases completed
    | partOf => cases completed
    | @completed run unfinished encloses =>
      cases completed
      exact ⟨run, encloses.whole, rfl, rfl⟩
    | awaiting => cases completed
  refine ⟨s.trail_of_search, ?_, ?_, ?_⟩
  · intro m _
    exact ⟨trail_arc m.first m.last, length_arc m.first m.last, nodup_arc m.first m.last⟩
  · intro m completed found there
    obtain ⟨run, whole, -, rfl⟩ := entered m completed
    rw [Gathering.met_eq (nodup_arc _ _)] at there
    obtain ⟨u, inside, rfl⟩ := List.mem_map.mp there
    obtain ⟨f, here, fresh, -⟩ :=
      fragment?_of_waiting? (whole.edges_at (Run.mem_arc_iff.mp inside))
    exact ⟨f, here, fresh⟩
  · intro m completed
    obtain ⟨run, -, same, rfl⟩ := entered m completed
    have stored : (s.assemble run frame).stored =
        s.stored.map fun f => if f.position ∈ arc run.first run.last then f.consumed else f := by
      refine List.map_congr_left fun f _ => ?_
      simp only [onArc_iff_mem]
    refine ⟨(s.runFragments run).map (·.frame), ?_, rfl⟩
    rw [Gathering.foldl_take (nodup_arc _ _), same, stored]
    rfl

end Fragments

namespace Store

/-- After any calls, in any order and for any fragments, around any position. -/
theorem walks_end_callAll (calls : List (MessageKey × Call)) (key : MessageKey) (t : UInt32)
    (frame : FrameNumber) : ((empty.callAll calls).held key).WalksEnd t frame :=
  (consistent_callAll calls key).walksEnd

/-- A message on both sides of the wrap, gathered in two steps. -/
example :
    let s := (empty.callAll [(wrapKey, .add ⟨0, 1, false, true, [67]⟩),
      (wrapKey, .add ⟨4294967295, 2, true, false, [65, 66]⟩)]).held wrapKey
    arc 4294967295 0 = [4294967295, 0] ∧
      (s.reassemble 0 9).2 = .completed ⟨4294967295, 0, 9, [2, 1], [65, 66, 67]⟩ ∧
      ((arc 4294967295 0).foldl Gathering.take s.gathering).data = [65, 66, 67] := by decide

end Store

end SctpTrace.Reassembly
