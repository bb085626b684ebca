import Mathlib.Data.List.Dedup
import SctpTrace.Proofs.Keyed
import SctpTrace.Proofs.Session.Run

/-!
The analyses that a session holds, one for each frame. They are what it has answered, each frame
counted once (`onceEach_visitAll`).
-/
namespace SctpTrace.Session

def analyses (s : Session) : List PacketFacts := s.frames.map (·.2.facts)

/-- The analyses among some answers, each frame once; another pass over a frame repeats its
answer. -/
def onceEach (answers : List Answer) : List PacketFacts :=
  (answers.filterMap (·.toOption)).dedup

inductive Visit (s : Session) (d : Datagram) : Session × Answer → Prop where
  | repeated (entry : Remembered) (known : Keyed.get? d.frame s.frames = some entry) :
      Visit s d
        ({ s with frames := Keyed.put d.frame { entry with replayed := true } s.frames },
          .ok entry.facts)
  | refused (e : Wire.WireError) (new : Keyed.get? d.frame s.frames = none)
      (undecoded : Wire.Packet.decode d.data = .error e) : Visit s d (s, .error e)
  | taken (p : Wire.Packet) (new : Keyed.get? d.frame s.frames = none)
      (decoded : Wire.Packet.decode d.data = .ok p) :
  Visit s d ((s.take d p).1, .ok (s.take d p).2)

variable {s : Session} {d : Datagram} {run : List Datagram} {answers : List Answer}

theorem visit_cases (s : Session) (d : Datagram) : Visit s d (s.visit d) := by
  unfold visit
  cases known : Keyed.get? d.frame s.frames with
  | some entry => exact .repeated entry known
  | none =>
    cases decoded : Wire.Packet.decode d.data with
    | error e => exact .refused e known decoded
    | ok p => exact .taken p known decoded

theorem analyses_repeated {entry : Remembered} (known : Keyed.get? d.frame s.frames = some entry) :
    ((Keyed.put d.frame { entry with replayed := true } s.frames).map (·.2.facts)) =
      s.analyses := by
  rw [analyses]
  generalize s.frames = frames at known
  induction frames with
  | nil => cases known
  | cons first rest ih =>
    simp only [Keyed.get?] at known
    simp only [Keyed.put]
    split at known
    · rename_i same
      cases known
      rw [if_pos same]
      rfl
    · rename_i other
      rw [if_neg other, List.map_cons, List.map_cons, ih known]

theorem analyses_take (p : Wire.Packet) (new : Keyed.get? d.frame s.frames = none) :
    (s.take d p).1.analyses = s.analyses ++ [(s.take d p).2] := by
  rw [analyses, (take_eq d p).2.2.2, Keyed.put_of_get?_eq_none new, List.map_append]
  rfl

theorem frames_visitAll (run : List Datagram) :
    ∃ taken : List FrameNumber, taken.Sublist (run.map (·.frame)) ∧
      (s.visitAll run).1.analyses.map (·.frame) = s.analyses.map (·.frame) ++ taken := by
  induction run generalizing s with
  | nil => exact ⟨[], .slnil, (List.append_nil _).symm⟩
  | cons d rest ih =>
    obtain ⟨later, sublist, frames⟩ := ih (s := (s.visit d).1)
    rw [visitAll_cons]
    simp only [frames, List.map_cons]
    have visited := visit_cases s d
    generalize s.visit d = outcome at visited ⊢
    cases visited with
    | repeated entry known =>
      refine ⟨later, sublist.cons _, ?_⟩
      rw [analyses, analyses_repeated known]
    | refused e new undecoded => exact ⟨later, sublist.cons _, rfl⟩
    | taken p new decoded =>
      refine ⟨d.frame :: later, sublist.cons_cons _, ?_⟩
      rw [analyses_take p new, List.map_append, List.append_assoc]
      rfl

theorem pairwise_analyses (unseen : s.frames = []) (run : List Datagram)
    (ordered : (run.map (·.frame)).Pairwise (· < ·)) :
    ((s.visitAll run).1.analyses.map (·.frame)).Pairwise (· < ·) := by
  obtain ⟨taken, sublist, frames⟩ := frames_visitAll (s := s) run
  have blank : s.analyses = [] := by rw [analyses, unseen, List.map_nil]
  rw [frames, blank]
  exact ordered.sublist sublist

structure Reported (s : Session) (answers : List Answer) : Prop where
  distinct : s.frames.keys.Nodup
  placed : ∀ entry ∈ s.frames, entry.2.facts.frame = entry.1
  answered : ∀ p, p ∈ s.analyses ↔ .ok p ∈ answers

theorem Reported.nodup (reported : s.Reported answers) : s.analyses.Nodup := by
  have frames : s.analyses.map (·.frame) = s.frames.keys := by
    rw [analyses, List.map_map, Keyed.keys]
    exact List.map_congr_left reported.placed
  refine List.Nodup.of_map (·.frame) ?_
  rw [frames]
  exact reported.distinct

theorem Reported.visit (reported : s.Reported answers) (d : Datagram) :
    (s.visit d).1.Reported (answers ++ [(s.visit d).2]) := by
  have visited := visit_cases s d
  generalize s.visit d = outcome at visited ⊢
  cases visited with
  | repeated entry known =>
    have member := Keyed.mem_of_get? known
    refine ⟨?_, ?_, ?_⟩
    · exact Keyed.nodup_keys_put reported.distinct
    · intro e there
      rcases Keyed.mem_of_mem_put there with rfl | old
      · have place := reported.placed _ member
        exact place
      · exact reported.placed e old
    · intro p
      have here : .ok entry.facts ∈ answers :=
        (reported.answered _).mp (List.mem_map_of_mem member)
      rw [analyses, analyses_repeated known, reported.answered p, List.mem_append,
        List.mem_singleton, or_iff_left_of_imp]
      rintro ⟨⟩
      exact here
  | refused e new undecoded =>
    refine ⟨reported.distinct, reported.placed, ?_⟩
    intro p
    rw [reported.answered p, List.mem_append, List.mem_singleton, or_iff_left_of_imp]
    rintro ⟨⟩
  | taken p new decoded =>
    refine ⟨?_, ?_, ?_⟩
    · rw [(take_eq d p).2.2.2]
      exact Keyed.nodup_keys_put reported.distinct
    · rw [(take_eq d p).2.2.2]
      intro e there
      rcases Keyed.mem_of_mem_put there with rfl | old
      · rfl
      · exact reported.placed e old
    · intro q
      rw [analyses_take p new, List.mem_append, List.mem_append, List.mem_singleton,
        List.mem_singleton, reported.answered q, Except.ok.injEq]

theorem Reported.visitAll (run : List Datagram) (reported : s.Reported answers) :
    (s.visitAll run).1.Reported (answers ++ (s.visitAll run).2) := by
  induction run generalizing s answers with
  | nil => simpa [Session.visitAll] using reported
  | cons d rest ih =>
    have later := ih (reported.visit d)
    rwa [List.append_assoc, List.singleton_append] at later

theorem reported_unseen (unseen : s.frames = []) : s.Reported [] := by
  refine ⟨?_, ?_, ?_⟩
  · rw [unseen]
    exact List.nodup_nil
  · rw [unseen]
    intro entry absent
    cases absent
  · intro p
    simp [analyses, unseen]

theorem onceEach_visitAll (unseen : s.frames = []) (run : List Datagram) :
    (onceEach (s.visitAll run).2).Perm (s.visitAll run).1.analyses := by
  have reported := (reported_unseen unseen).visitAll run
  rw [List.nil_append] at reported
  refine (List.perm_ext_iff_of_nodup (List.nodup_dedup _) reported.nodup).mpr fun p => ?_
  rw [List.mem_dedup, List.mem_filterMap, reported.answered p]
  constructor
  · rintro ⟨answer, there, isAnalysis⟩
    cases answer with
    | error e => cases isAnalysis
    | ok q =>
      cases isAnalysis
      exact there
  · intro there
    exact ⟨_, there, rfl⟩

end SctpTrace.Session
