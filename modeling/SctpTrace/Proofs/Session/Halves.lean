import SctpTrace.Proofs.Session.Passes
import SctpTrace.Proofs.Transmission.Reachable

/-!
The halves of a session are in states that halves can be in, between any two chunks of a run.
-/
namespace SctpTrace.Session

open Transmission

def Tables.Reachable (config : Config) (tables : Tables) : Prop :=
  tables.tracker.Reachable config.ackLimits config.tsn.maxRetransmissionsTracked

variable {s : Session} {config : Config} {x : ChunkPass}

theorem reachable_neutral (config : Config) : Neutral (Tables.Reachable config) := by
  intro tables f reachable
  exact Tracker.Reachable.ensure reachable f

/-- A chunk moves at most one half on, by one event. -/
theorem ChunkPass.Taken.step_cases (taken : x.Taken config) :
    x.after.tracker = x.before.tracker ∨ ∃ id h e, x.before.tracker.half? id = some h ∧
      x.after.tracker = x.before.tracker.setHalf id
        (h.step config.ackLimits config.tsn.maxRetransmissionsTracked e) := by
  obtain ⟨rfl, sound, seated, -⟩ := taken
  unfold ChunkPass.after
  apply takeRaw_cases (P := fun taken => taken.1.tracker = x.before.tracker ∨ ∃ id h e,
    x.before.tracker.half? id = some h ∧ taken.1.tracker = x.before.tracker.setHalf id
      (h.step x.ctx.config.ackLimits x.ctx.config.tsn.maxRetransmissionsTracked e))
  · intro u
    rcases transmit_cases seated u.tsn with same | ⟨id, h, found, -, after⟩
    · exact Or.inl (congrArg Prod.fst same)
    · exact Or.inr ⟨id, h, .transmit u.tsn x.ctx.stamp, found, congrArg Prod.fst after⟩
  · intro chunk nonRenegable
    rcases sack_cases sound seated chunk nonRenegable with same | ⟨id, h, found, -, after⟩
    · exact Or.inl (congrArg Prod.fst same)
    · exact Or.inr ⟨id, h, .sack chunk nonRenegable x.ctx.stamp, found, congrArg Prod.fst after⟩
  · intro chunk ack
    rcases setBaseline_cases seated chunk ack x.before.store with same | ⟨id, h, found, -, after⟩
    · exact Or.inl (congrArg Tables.tracker same)
    · exact Or.inr ⟨id, h, .announce chunk.initialTsn, found, congrArg Tables.tracker after⟩
  · exact fun _ _ _ => Or.inl rfl
  · exact fun _ => Or.inl rfl

theorem ChunkPass.Taken.reachable (taken : x.Taken config)
    (before : x.before.Reachable config) : x.after.Reachable config := by
  unfold Tables.Reachable at before ⊢
  rcases taken.step_cases with same | ⟨id, h, e, found, after⟩
  · rw [same]
    exact before
  · rw [after]
    exact before.step found e

theorem reachable_visitAll (fresh : s.Fresh) (run : List Datagram) :
    (s.visitAll run).1.tables.Reachable s.config := by
  apply passes_induction (P := fun _ tables => tables.Reachable s.config)
  · exact fun _ => reachable_neutral s.config
  · exact fun _ _ taken before => taken.reachable before
  · rw [fresh.unseen.2]
    exact Tracker.sound_empty
  · rw [fresh.unseen.2]
    intro h absent
    cases absent

end SctpTrace.Session
