import SctpTrace.Proofs.Reassembly.Search
import SctpTrace.Reassembly.Store

/-!
Positions turned by `k` on the circle. The boundary lists are sorted by absolute numbers, so a turn
keeps them up to order only (`Fragments.Turned`); the nearest boundary does not depend on their order.
-/
namespace SctpTrace.Reassembly

open Serial

def Fragment.shift (k : UInt32) (f : Fragment) : Fragment := { f with position := f.position + k }

def Message.shift (k : UInt32) (m : Message) : Message :=
  { m with first := m.first + k, last := m.last + k }

def Run.shift (k : UInt32) (run : Run) : Run := ⟨run.first + k, run.last + k⟩

def Attempt.shift (k : UInt32) : Attempt → Attempt
  | .completed m => .completed (m.shift k)
  | .again m => .again (m.shift k)
  | .awaitingMore => .awaitingMore
  | .partOf completedIn => .partOf completedIn

structure Fragments.Turned (k : UInt32) (s s' : Fragments) : Prop where
  stored : s'.stored = s.stored.map (Fragment.shift k)
  completed : s'.completed = s.completed.map (Message.shift k)
  firsts : s'.firsts.Perm (s.firsts.map (· + k))
  lasts : s'.lasts.Perm (s.lasts.map (· + k))

theorem insert_between_perm (before : UInt32 → Bool) (p : UInt32) (positions : List UInt32) :
    (positions.takeWhile before ++ p :: positions.dropWhile before).Perm (p :: positions) := by
  have middle : (positions.takeWhile before ++ p :: positions.dropWhile before).Perm
      (p :: (positions.takeWhile before ++ positions.dropWhile before)) := List.perm_middle
  rwa [List.takeWhile_append_dropWhile] at middle

/-- The nearest position does not depend on the order of the list, and turns with it. -/
theorem closest?_turned {measure turned : UInt32 → Nat} {positions others : List UInt32}
    {k : UInt32} (same : others.Perm (positions.map (· + k)))
    (injective : ∀ q r, measure q = measure r → q = r)
    (agree : ∀ p, turned (p + k) = measure p) :
    closest? turned others = (closest? measure positions).map (· + k) := by
  have injectiveToo : ∀ q r, turned q = turned r → q = r := by
    intro q r equal
    have back : ∀ p : UInt32, p = p - k + k := fun p => (UInt32.sub_add_cancel p k).symm
    rw [back q, back r, agree, agree] at equal
    rw [back q, back r, injective _ _ equal]
  cases found : closest? measure positions with
  | none =>
    rw [closest?_eq_none_iff.mp found] at same
    rw [same.eq_nil]
    rfl
  | some p =>
    obtain ⟨member, least⟩ := closest?_spec found
    refine (closest?_eq_some_iff injectiveToo).mpr ⟨?_, ?_⟩
    · exact same.mem_iff.mpr (List.mem_map_of_mem member)
    · intro q there
      obtain ⟨r, inside, rfl⟩ := List.mem_map.mp (same.mem_iff.mp there)
      rw [agree, agree]
      exact least r inside

namespace Fragments

variable {k : UInt32} {s s' : Fragments} {t : UInt32} {frame : FrameNumber}

theorem turned_empty (k : UInt32) : Turned k empty empty := ⟨rfl, rfl, .rfl, .rfl⟩

theorem Turned.fragment? (turned : Turned k s s') :
    s'.fragment? (t + k) = (s.fragment? t).map (Fragment.shift k) := by
  have same : (fun f : Fragment => f.position == t + k) ∘ Fragment.shift k =
      fun f => f.position == t := by
    funext f
    exact Bool.eq_iff_iff.mpr (by simp [Fragment.shift])
  rw [Fragments.fragment?, Fragments.fragment?, turned.stored, List.find?_map, same]

theorem Turned.add (turned : Turned k s s') (isFirst isLast : Bool) (payload : Bytes) :
    Turned k (s.add t isFirst isLast payload frame).1
        (s'.add (t + k) isFirst isLast payload frame).1 ∧
      (s'.add (t + k) isFirst isLast payload frame).2 =
        (s.add t isFirst isLast payload frame).2 := by
  simp only [Fragments.add, turned.fragment?]
  cases s.fragment? t with
  | some known => exact ⟨turned, rfl⟩
  | none =>
    refine ⟨⟨?_, turned.completed, ?_, ?_⟩, rfl⟩
    · simp only [turned.stored, List.map_append, List.map_cons, List.map_nil]
      rfl
    · cases isFirst with
      | false => exact turned.firsts
      | true =>
        have inserted := insert_between_perm (fun q => t < q) t s.firsts
        refine (insert_between_perm _ _ _).trans ?_
        exact (turned.firsts.cons _).trans (inserted.map (· + k)).symm
    · cases isLast with
      | false => exact turned.lasts
      | true =>
        have inserted := insert_between_perm (fun q => q < t) t s.lasts
        refine (insert_between_perm _ _ _).trans ?_
        exact (turned.lasts.cons _).trans (inserted.map (· + k)).symm

theorem Turned.walk (turned : Turned k s s') (run : Run) (steps : Nat) (t : UInt32) :
    s'.walk (run.shift k) steps (t + k) = s.walk run steps t := by
  induction steps generalizing t with
  | zero => rfl
  | succ steps ih =>
    have next : t + k + 1 = t + 1 + k := by grind
    have first : (t + k != (run.shift k).first) = (t != run.first) :=
      Bool.eq_iff_iff.mpr (by simp [Run.shift])
    have last : t + k = (run.shift k).last ↔ t = run.last := UInt32.add_left_inj k
    simp only [Fragments.walk, turned.fragment?, next, ih, first, last]
    cases s.fragment? t with
    | none => rfl
    | some f => rfl

theorem Turned.runAround? (turned : Turned k s s') :
    s'.runAround? (t + k) = (s.runAround? t).map (Run.shift k) := by
  have first : closest? (fun p => distance p (t + k)) s'.firsts =
      (closest? (fun p => distance p t) s.firsts).map (· + k) :=
    closest?_turned turned.firsts (fun _ _ => distance_left_inj) fun p => distance_add_right p t k
  have last : closest? (fun p => distance (t + k) p) s'.lasts =
      (closest? (fun p => distance t p) s.lasts).map (· + k) :=
    closest?_turned turned.lasts (fun _ _ => distance_inj) fun p => distance_add_right t p k
  have length : s'.stored.length = s.stored.length := by rw [turned.stored, List.length_map]
  have whole : ∀ p q, s'.walkWhole ⟨p + k, q + k⟩ = s.walkWhole ⟨p, q⟩ := by
    intro p q
    rw [walkWhole, walkWhole, length]
    exact turned.walk ⟨p, q⟩ _ p
  simp only [Fragments.runAround?, first, last]
  cases closest? (fun p => distance p t) s.firsts with
  | none => rfl
  | some p =>
    cases closest? (fun p => distance t p) s.lasts with
    | none => rfl
    | some q =>
      simp only [Option.map_some, Option.bind_eq_bind, Option.bind_some, onArc_add_right, whole]
      split <;> rfl

theorem Turned.message (turned : Turned k s s') (run : Run) :
    s'.message (run.shift k) frame = (s.message run frame).shift k := by
  have parts : s'.runFragments (run.shift k) = (s.runFragments run).map (Fragment.shift k) := by
    simp only [runFragments, Run.shift, arc_add_right, List.filterMap_map, List.map_filterMap]
    congr 1
    funext p
    exact turned.fragment?
  simp only [Fragments.message, parts, List.map_map, List.flatMap_map]
  rfl

theorem filter_ne_map (p : UInt32) (positions : List UInt32) :
    (positions.map (· + k)).filter (· != p + k) = (positions.filter (· != p)).map (· + k) := by
  rw [List.filter_map]
  congr 1
  apply List.filter_congr
  intro q _
  exact Bool.eq_iff_iff.mpr (by simp)

theorem Turned.assemble (turned : Turned k s s') (run : Run) :
    Turned k (s.assemble run frame) (s'.assemble (run.shift k) frame) := by
  refine ⟨?_, ?_, ?_, ?_⟩
  · simp only [Fragments.assemble, turned.stored, List.map_map]
    apply List.map_congr_left
    intro f _
    have covered : onArc (run.shift k).first (run.shift k).last (f.shift k).position =
        onArc run.first run.last f.position := onArc_add_right _ _ _ _
    simp only [Function.comp_apply, covered]
    split <;> rfl
  · simp only [Fragments.assemble, turned.completed, turned.message, List.map_append, List.map_cons,
      List.map_nil]
  · have kept := turned.firsts.filter (· != run.first + k)
    rwa [filter_ne_map] at kept
  · have kept := turned.lasts.filter (· != run.last + k)
    rwa [filter_ne_map] at kept

theorem Turned.reassemble (turned : Turned k s s') :
    Turned k (s.reassemble t frame).1 (s'.reassemble (t + k) frame).1 ∧
      (s'.reassemble (t + k) frame).2 = (s.reassemble t frame).2.shift k := by
  have contained : (fun m : Message => m.contains (t + k)) ∘ Message.shift k =
      fun m => m.contains t := by
    funext m
    exact onArc_add_right m.first m.last t k
  have found : s'.completed.find? (·.contains (t + k)) =
      (s.completed.find? (·.contains t)).map (Message.shift k) := by
    rw [turned.completed, List.find?_map, contained]
  simp only [Fragments.reassemble, found]
  cases s.completed.find? (·.contains t) with
  | some m =>
    refine ⟨turned, ?_⟩
    have frame_same : (m.shift k).completedIn = m.completedIn := rfl
    simp only [Option.map_some, frame_same]
    split <;> rfl
  | none =>
    simp only [Option.map_none, turned.runAround?]
    cases s.runAround? t with
    | none => exact ⟨turned, rfl⟩
    | some run => exact ⟨turned.assemble run, congrArg Attempt.completed (turned.message run)⟩

end Fragments

namespace Store

/-- The fragments of each key turned by an amount of its own. -/
def Turned (turn : MessageKey → UInt32) (s s' : Store) : Prop :=
  ∀ key, Option.Rel (Fragments.Turned (turn key)) (s.fragments? key) (s'.fragments? key)

variable {turn : MessageKey → UInt32} {s s' : Store} {key : MessageKey}

theorem turned_empty (turn : MessageKey → UInt32) : Turned turn empty empty := fun _ => .none

theorem fragments?_put (key other : MessageKey) (known : Fragments) :
    fragments? ⟨Keyed.put key known s.entries⟩ other =
      if key = other then some known else s.fragments? other :=
  Keyed.get?_put key other known s.entries

theorem Turned.put (turned : Turned turn s s') {known known' : Fragments}
    (same : known.Turned (turn key) known') :
    Turned turn ⟨Keyed.put key known s.entries⟩ ⟨Keyed.put key known' s'.entries⟩ := by
  intro other
  rw [fragments?_put, fragments?_put]
  split
  · rename_i here
    subst here
    exact .some same
  · exact turned other

theorem Turned.getD (turned : Turned turn s s') :
    ((s.fragments? key).getD .empty).Turned (turn key) ((s'.fragments? key).getD .empty) := by
  have here := turned key
  generalize s.fragments? key = known, s'.fragments? key = known' at here
  cases here with
  | none => exact Fragments.turned_empty _
  | some same => exact same

theorem Turned.add (turned : Turned turn s s') (key : MessageKey) (t : UInt32)
    (isFirst isLast : Bool) (payload : Bytes) (frame : FrameNumber) :
    Turned turn (s.add key t isFirst isLast payload frame).1
        (s'.add key (t + turn key) isFirst isLast payload frame).1 ∧
      (s'.add key (t + turn key) isFirst isLast payload frame).2 =
        (s.add key t isFirst isLast payload frame).2 := by
  obtain ⟨known, addition⟩ := turned.getD.add isFirst isLast payload
  exact ⟨turned.put known, addition⟩

theorem Turned.reassemble (turned : Turned turn s s') (key : MessageKey) (t : UInt32)
    (frame : FrameNumber) :
    Turned turn (s.reassemble key t frame).1 (s'.reassemble key (t + turn key) frame).1 ∧
      (s'.reassemble key (t + turn key) frame).2 =
        (s.reassemble key t frame).2.shift (turn key) := by
  have here := turned key
  simp only [Store.reassemble]
  generalize s.fragments? key = known, s'.fragments? key = known' at here
  cases here with
  | none => exact ⟨turned, rfl⟩
  | some same =>
    obtain ⟨joined, attempt⟩ := same.reassemble
    exact ⟨turned.put joined, attempt⟩

end Store

end SctpTrace.Reassembly
