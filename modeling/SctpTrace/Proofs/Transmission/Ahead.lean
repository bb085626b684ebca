import SctpTrace.Proofs.Transmission.Counts
import SctpTrace.Proofs.Transmission.Reachable

/-!
Cumulative acks that lie ahead of the point of a half. They move the point and acknowledge what they
add to it as long as they lie less than half the circle past the baseline; from there on they are
taken for acks before the baseline, and the point stays (`cumulativeAck_ahead`).
-/
namespace SctpTrace.Transmission.Half

open Serial

/-- From the point `m` a cumulative ack at `c` moves the point there, and acknowledges each record
on the way that waits and was sent before. -/
structure Advances (h : Half) (first : UInt32) (m : Nat) (c : UInt32) (stamp : Stamp)
    (after : Half × List Acked) : Prop where
  arrives : ∃ point, after.1.cumulative = some point ∧ forward first point = c
  acked : ∀ steps, 1 ≤ steps → steps ≤ distance (forward first m) c → ∀ r,
    h.record? (forward first (m + steps)) = some r → r.ack = none →
      r.first.frame < stamp.frame →
        after.1.record? (forward first (m + steps)) = some (r.acknowledged stamp) ∧
          ackedFact stamp .cumulative (m + steps, r) ∈ after.2

variable {h : Half} {limits : AckLimits} {cap m : Nat} {first c : UInt32} {stamp : Stamp}

theorem distance_ahead (near : m + distance (forward first m) c < 4294967296) :
    distance first c = m + distance (forward first m) c := by
  have place : forward first (m + distance (forward first m) c) = c := by
    rw [← forward_add, forward_distance]
  have steps := distance_forward first near
  rwa [place] at steps

theorem distance_around (low : m < 4294967296)
    (far : 4294967296 ≤ m + distance (forward first m) c) :
    distance first c + 4294967296 = m + distance (forward first m) c := by
  have start := distance_forward first low
  have hf := first.toNat_lt
  have hc := c.toNat_lt
  have hp := (forward first m).toNat_lt
  simp only [distance, UInt32.toNat_sub] at far start ⊢
  omega

theorem relative?_eq (based : h.baseline = some first) (t : UInt32) :
    h.relative? t = some (distance first t) := by
  rw [relative?, based]
  rfl

theorem cumulativeAck_of_far (based : h.baseline = some first)
    (far : 2147483648 ≤ distance first c) : h.cumulativeAck limits c stamp = (h, []) := by
  rw [cumulativeAck, relative?_eq based]
  exact if_pos far

theorem cumulativeAck_of_near (based : h.baseline = some first) (reached : h.cumulative = some m)
    (near : distance first c < 2147483648) (spanned : distance first c - m ≤ limits.span) :
    h.cumulativeAck limits c stamp =
      ({ h with cumulative := some (max m (distance first c)) }).acknowledge
        (distance first c - (limits.span - 1)) (distance first c) stamp .cumulative := by
  have within : ¬ limits.span < h.advance (distance first c) := by
    rw [advance, reached]
    exact Nat.not_lt.mpr spanned
  rw [cumulativeAck, relative?_eq based]
  simp only [Nat.not_le.mpr near, ↓reduceIte, within, reached, Option.getD_some]

theorem record?_acknowledge (kind : AckKind) {low high : Nat} {t : UInt32} {r : Record}
    (based : h.baseline = some first) (known : h.record? t = some r)
    (covered : covers low high stamp (distance first t, r) = true) :
    (h.acknowledge low high stamp kind).1.record? t = some (r.acknowledged stamp) ∧
      ackedFact stamp kind (distance first t, r) ∈ (h.acknowledge low high stamp kind).2 := by
  have stays : (h.acknowledge low high stamp kind).1.baseline = some first := based
  rw [record?, relative?_eq based, Option.bind_some] at known
  refine ⟨?_, ?_⟩
  · rw [record?, relative?_eq stays, Option.bind_some, acknowledge, get?_ackEntry, known,
      Option.map_some, ackEntry, if_pos covered]
  · rw [acknowledge]
    exact List.mem_map_of_mem (List.mem_filter.mpr ⟨Keyed.mem_of_get? known, covered⟩)

theorem advances_of_near (based : h.baseline = some first) (reached : h.cumulative = some m)
    (ahead : 1 ≤ distance (forward first m) c)
    (spanned : distance (forward first m) c ≤ limits.span)
    (near : m + distance (forward first m) c < 2147483648) :
    h.Advances first m c stamp (h.cumulativeAck limits c stamp) := by
  have place : distance first c = m + distance (forward first m) c := distance_ahead (by omega)
  rw [cumulativeAck_of_near based reached (by omega) (by omega)]
  refine ⟨⟨distance first c, ?_, forward_distance first c⟩, ?_⟩
  · change some (max m (distance first c)) = _
    rw [Nat.max_eq_right (by omega)]
  · intro steps one few r known unacked earlier
    have here : distance first (forward first (m + steps)) = m + steps :=
      distance_forward first (by omega)
    have covered : covers (distance first c - (limits.span - 1)) (distance first c) stamp
        (distance first (forward first (m + steps)), r) = true := by
      simp only [covers, Record.awaits, unacked, here, Bool.and_eq_true, decide_eq_true_eq,
        Option.isNone_none, true_and]
      exact ⟨⟨by omega, by omega⟩, earlier⟩
    have acked := record?_acknowledge .cumulative
      (h := { h with cumulative := some (max m (distance first c)) }) based known covered
    rwa [here] at acked

/-- An ack ahead of the point advances it exactly if it lies less than half the circle past the
baseline. Otherwise the point stays, and unless the ack goes around the circle nothing is
acknowledged. -/
theorem cumulativeAck_ahead (reachable : h.Reachable limits cap) (reached : h.cumulative = some m) :
    ∃ first, h.baseline = some first ∧ m < 2147483648 ∧ ∀ (c : UInt32) (stamp : Stamp),
      1 ≤ distance (forward first m) c → distance (forward first m) c ≤ limits.span →
        (m + distance (forward first m) c < 2147483648 →
          h.Advances first m c stamp (h.cumulativeAck limits c stamp)) ∧
        (2147483648 ≤ m + distance (forward first m) c →
          (h.cumulativeAck limits c stamp).1.cumulative = some m ∧
            (m + distance (forward first m) c < 4294967296 →
              h.cumulativeAck limits c stamp = (h, []))) := by
  have pointed := reachable.pointed
  have low := pointed.low m reached
  cases based : h.baseline with
  | none =>
    rw [pointed.based based] at reached
    cases reached
  | some first =>
    refine ⟨first, rfl, low, fun c stamp ahead spanned => ⟨?_, fun far => ?_⟩⟩
    · exact advances_of_near based reached ahead spanned
    · by_cases around : 4294967296 ≤ m + distance (forward first m) c
      · have place := distance_around (by omega) around
        have short := distance_lt (forward first m) c
        refine ⟨?_, fun near => absurd near (by omega)⟩
        rw [cumulativeAck_of_near based reached (by omega) (by omega)]
        change some (max m (distance first c)) = _
        rw [Nat.max_eq_left (by omega)]
      · have place : distance first c = m + distance (forward first m) c :=
          distance_ahead (by omega)
        rw [cumulativeAck_of_far based (by omega)]
        exact ⟨reached, fun _ => rfl⟩

theorem reachable_follow (flow : Flow) (events : List HalfEvent) :
    ((new flow).follow limits cap events).Reachable limits cap := by
  have onward : ∀ {h : Half}, h.Reachable limits cap →
      (h.follow limits cap events).Reachable limits cap := by
    intro h known
    induction events generalizing h with
    | nil => exact known
    | cons e rest ih => exact ih (.step e known)
  exact onward (.new flow)

def aroundTheWrap : Half :=
  (new ⟨0, .forward⟩).follow ⟨5000, 100⟩ 100
    [.transmit 4294967295 ⟨1, ⟨1, 0⟩⟩, .transmit 0 ⟨2, ⟨2, 0⟩⟩, .transmit 1 ⟨3, ⟨3, 0⟩⟩,
      .sack ⟨4294967295, 1500, [], [], []⟩ false ⟨4, ⟨4, 0⟩⟩]

theorem cumulativeAck_ahead_over_the_wrap :
    aroundTheWrap.Reachable ⟨5000, 100⟩ 100 ∧ aroundTheWrap.cumulative = some 0 ∧
      aroundTheWrap.Advances 4294967295 0 1 ⟨5, ⟨5, 0⟩⟩
        (aroundTheWrap.cumulativeAck ⟨5000, 100⟩ 1 ⟨5, ⟨5, 0⟩⟩) := by
  have reachable : aroundTheWrap.Reachable ⟨5000, 100⟩ 100 := reachable_follow _ _
  have reached : aroundTheWrap.cumulative = some 0 := by decide
  have based : aroundTheWrap.baseline = some 4294967295 := by decide
  obtain ⟨first, known, -, whole⟩ := cumulativeAck_ahead reachable reached
  rw [based, Option.some.injEq] at known
  subst known
  exact ⟨reachable, reached, (whole 1 ⟨5, ⟨5, 0⟩⟩ (by decide) (by decide)).1 (by decide)⟩

/-- An ack skips to the middle of the circle, and then one more TSN is sent. -/
def halfwayRound : Half :=
  (new ⟨0, .forward⟩).follow ⟨5000, 100⟩ 100
    [.transmit 0 ⟨1, ⟨1, 0⟩⟩, .sack ⟨2147483647, 1500, [], [], []⟩ false ⟨2, ⟨2, 0⟩⟩,
      .transmit 2147483648 ⟨3, ⟨3, 0⟩⟩]

theorem cumulativeAck_stops_halfway :
    ¬ ∀ (limits : AckLimits) (cap : Nat) (h : Half), h.Reachable limits cap →
      ∀ (first : UInt32) (m : Nat), h.baseline = some first → h.cumulative = some m →
        ∀ (c : UInt32) (stamp : Stamp), 1 ≤ distance (forward first m) c →
          distance (forward first m) c ≤ limits.span →
            h.Advances first m c stamp (h.cumulativeAck limits c stamp) := by
  intro always
  have advances := always ⟨5000, 100⟩ 100 halfwayRound (reachable_follow _ _) 0 2147483647
    (by decide) (by decide) 2147483648 ⟨4, ⟨4, 0⟩⟩ (by decide) (by decide)
  have stays : (halfwayRound.cumulativeAck ⟨5000, 100⟩ 2147483648 ⟨4, ⟨4, 0⟩⟩).1.cumulative =
      some 2147483647 := by decide
  obtain ⟨point, reached, there⟩ := advances.arrives
  rw [stays, Option.some.injEq] at reached
  subst reached
  revert there
  decide

end SctpTrace.Transmission.Half
