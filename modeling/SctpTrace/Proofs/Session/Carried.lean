import SctpTrace.Proofs.Reassembly.Redelivery
import SctpTrace.Proofs.Sender.Channel
import SctpTrace.Proofs.Session.Passes

/-!
What a chunk of a run carries and what it is answered: user data that is not a retransmission is
delivered (`ChunkPass.Takes`), and a fragment is taken by reassembly (`ChunkPass.Brings`).
-/
namespace SctpTrace.Session

open Wire Reassembly

namespace ChunkPass

def facts? (x : ChunkPass) : Option DataFacts := x.report.facts.data?

def delivery? (x : ChunkPass) : Option Delivery := x.facts?.map (·.delivery)

def unit? (x : ChunkPass) : Option DataUnit := x.raw.decode.toOption.bind Sender.dataUnit?

/-- The key and the position of the fragment that the chunk carries. A message in one piece is no
fragment. -/
def fragment? (x : ChunkPass) : Option (MessageKey × UInt32) :=
  x.unit?.bind fun u =>
    if u.beginning && u.ending then none else some (x.ctx.messageKey u, u.position)

end ChunkPass

variable {x : ChunkPass}

def Context.delivered (ctx : Context) (tables : Tables) (u : DataUnit) : DeliveryReport :=
  if (ctx.transmit tables.tracker u.tsn).2.any (·.isRetransmission) then
    ⟨tables.store, .retransmission, [], .zero⟩
  else ctx.deliver tables.store u

structure ChunkPass.Takes (x : ChunkPass) (u : DataUnit) : Prop where
  unit : x.unit? = some u
  tracker : x.after.tracker = (x.ctx.transmit x.before.tracker u.tsn).1
  store : x.after.store = (x.ctx.delivered x.before u).store
  told : ∃ d, x.facts? = some d ∧ d.tsn = u.tsn ∧
    d.delivery = (x.ctx.delivered x.before u).delivery

theorem ChunkPass.takes_of_takeRaw {u : DataUnit} (unit : x.unit? = some u)
    (data : x.ctx.takeRaw x.before x.raw = x.ctx.takeData x.before u) : x.Takes u := by
  refine ⟨unit, ?_, ?_, ?_⟩
  · rw [after, data]
    rfl
  · rw [after, data]
    rfl
  · rw [facts?, report, data]
    exact ⟨_, rfl, rfl, rfl⟩

theorem ChunkPass.unit_cases (x : ChunkPass) :
    (x.unit? = none ∧ x.facts? = none ∧ x.after.store = x.before.store) ∨ ∃ u, x.Takes u := by
  have data : ∀ u, x.unit? = some u →
      x.ctx.takeRaw x.before x.raw = x.ctx.takeData x.before u → ∃ u, x.Takes u :=
    fun u unit taken => ⟨u, takes_of_takeRaw unit taken⟩
  unfold unit? facts? after report Context.takeRaw at *
  cases decoded : x.raw.decode with
  | error reason => exact Or.inl ⟨rfl, rfl, rfl⟩
  | ok chunk =>
    rw [decoded] at data
    cases chunk with
    | data c => exact Or.inr (data _ rfl rfl)
    | interleaved c => exact Or.inr (data _ rfl rfl)
    | sack c => exact Or.inl ⟨rfl, rfl, rfl⟩
    | nrSack c => exact Or.inl ⟨rfl, rfl, rfl⟩
    | init c => exact Or.inl ⟨rfl, rfl, rfl⟩
    | initAck c => exact Or.inl ⟨rfl, rfl, rfl⟩
    | abort reflected => exact Or.inl ⟨rfl, rfl, rfl⟩
    | shutdownComplete reflected => exact Or.inl ⟨rfl, rfl, rfl⟩
    | other code length => exact Or.inl ⟨rfl, rfl, rfl⟩

def DataUnit.arrival (u : DataUnit) (frame : FrameNumber) : Arrival :=
  ⟨u.position, frame, u.beginning, u.ending, u.payload⟩

def Delivery.ofReceipt : Except FrameNumber Attempt → Delivery
  | .error earlier => .duplicateFragment earlier
  | .ok attempt => .ofAttempt attempt

theorem deliverFragment_receive (ctx : Context) (store : Store) (u : DataUnit) :
    (ctx.deliverFragment store u).store =
        (store.receive (ctx.messageKey u) (u.arrival ctx.stamp.frame)).1 ∧
      (ctx.deliverFragment store u).delivery =
        .ofReceipt (store.receive (ctx.messageKey u) (u.arrival ctx.stamp.frame)).2 := by
  simp only [Context.deliverFragment, Store.receive, DataUnit.arrival]
  cases (store.add (ctx.messageKey u) u.position u.beginning u.ending u.payload
      ctx.stamp.frame).2 with
  | duplicate earlier => exact ⟨rfl, rfl⟩
  | added => exact ⟨rfl, rfl⟩
  | alreadyPresent => exact ⟨rfl, rfl⟩

structure ChunkPass.Brings (x : ChunkPass) (key : MessageKey) (a : Arrival) : Prop where
  fragment : x.fragment? = some (key, a.position)
  frame : a.frame = x.frame
  told : x.delivery? = some (.ofReceipt (x.before.store.receive key a).2)
  store : x.after.store = (x.before.store.receive key a).1

theorem ChunkPass.brings_cases (x : ChunkPass) :
    (x.after.store = x.before.store ∧
        ∀ data frames, x.delivery? ≠ some (.reassembled data frames)) ∨
      ∃ u, x.unit? = some u ∧ x.Brings (x.ctx.messageKey u) (u.arrival x.frame) := by
  rcases x.unit_cases with ⟨-, silent, same⟩ | ⟨u, takes⟩
  · refine Or.inl ⟨same, ?_⟩
    intro data frames
    rw [delivery?, silent]
    simp
  obtain ⟨d, told, -, delivery⟩ := takes.told
  have answered : x.delivery? = some (x.ctx.delivered x.before u).delivery := by
    rw [delivery?, told, Option.map_some, delivery]
  have idle : ∀ {e}, (x.ctx.delivered x.before u) = ⟨x.before.store, e, [], .zero⟩ →
      (∀ data frames, e ≠ .reassembled data frames) →
      x.after.store = x.before.store ∧
        ∀ data frames, x.delivery? ≠ some (.reassembled data frames) := by
    intro e same other
    refine ⟨by rw [takes.store, same], ?_⟩
    intro data frames
    rw [answered, same]
    exact fun equal => other data frames (Option.some.inj equal)
  by_cases again : (x.ctx.transmit x.before.tracker u.tsn).2.any (·.isRetransmission) = true
  · exact Or.inl (idle (by rw [Context.delivered, if_pos again]) (by simp))
  by_cases whole : (u.beginning && u.ending) = true
  · refine Or.inl (idle (by rw [Context.delivered, if_neg again, Context.deliver, if_pos whole]) ?_)
    simp
  by_cases enabled : x.ctx.config.reassembly.enabled = true
  · have delivered : x.ctx.delivered x.before u = x.ctx.deliverFragment x.before.store u := by
      rw [Context.delivered, if_neg again, Context.deliver, if_neg whole, if_pos enabled]
    obtain ⟨store, told⟩ := deliverFragment_receive x.ctx x.before.store u
    refine Or.inr ⟨u, takes.unit, ?_, rfl, ?_, ?_⟩
    · rw [fragment?, takes.unit, Option.bind_some, if_neg whole]
      rfl
    · rw [answered, delivered, told]
      rfl
    · rw [takes.store, delivered, store]
      rfl
  have suppressed : (x.ctx.delivered x.before u) = ⟨x.before.store,
      if u.beginning then .firstFragment u.payload else .suppressed, [], .zero⟩ := by
    rw [Context.delivered, if_neg again, Context.deliver, if_neg whole, if_neg enabled]
    split <;> rfl
  refine Or.inl (idle suppressed ?_)
  intro data frames
  split <;> simp

theorem ChunkPass.fragment_cases (x : ChunkPass) :
    (x.after.store = x.before.store ∧
        ∀ data frames, x.delivery? ≠ some (.reassembled data frames)) ∨
      ∃ key a, x.Brings key a :=
  x.brings_cases.imp_right fun ⟨_, _, brings⟩ => ⟨_, _, brings⟩

end SctpTrace.Session
