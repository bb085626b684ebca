import SctpTrace.Checksum.Verify
import SctpTrace.Transmission.Sack

/-!
The configuration of an analysis, its defaults, and the two settings that it cannot honour
(`problem?_eq_none_iff`).
-/
namespace SctpTrace

structure Config.Association where
  enableIndexing : Bool := true
  deriving DecidableEq, Repr

structure Config.Tsn where
  /-- Track transmissions and acknowledgements; this needs the associations. -/
  enabled : Bool := true
  /-- Retransmissions retained for each TSN; counting goes on beyond. -/
  maxRetransmissionsTracked : Nat := 100
  ackSpanLimit : Nat := 5000
  gapAckWarningThreshold : Nat := 100
  deriving DecidableEq, Repr

structure Config.Reassembly where
  enabled : Bool := true
  deriving DecidableEq, Repr

structure Config.Telemetry where
  logLevel : String := "info"
  jsonLogs : Bool := false
  deriving DecidableEq, Repr

structure Config where
  checksum : Checksum.Method := .none
  association : Config.Association := {}
  tsn : Config.Tsn := {}
  reassembly : Config.Reassembly := {}
  telemetry : Config.Telemetry := {}
  deriving DecidableEq, Repr

inductive ConfigError where
  | unreadable
  | tsnWithoutIndexing
  | zeroSpanLimit
  deriving DecidableEq, Repr

def ConfigError.message? : ConfigError → Option String
  | unreadable => none
  | tsnWithoutIndexing => some "Configuration error: TSN analysis requires association indexing"
  | zeroSpanLimit => some "Configuration error: ack_span_limit must be greater than zero"

namespace Config

def problem? (c : Config) : Option ConfigError :=
  if c.tsn.enabled && !c.association.enableIndexing then some .tsnWithoutIndexing
  else if c.tsn.ackSpanLimit = 0 then some .zeroSpanLimit
  else none

def checked (c : Config) : Except ConfigError Config :=
  match c.problem? with
  | some e => .error e
  | none => .ok c

def indexing (c : Config) : Bool := c.association.enableIndexing || c.tsn.enabled

def ackLimits (c : Config) : Transmission.AckLimits :=
  ⟨c.tsn.ackSpanLimit, c.tsn.gapAckWarningThreshold⟩

def Valid (c : Config) : Prop :=
  (c.tsn.enabled = true → c.association.enableIndexing = true) ∧ 0 < c.tsn.ackSpanLimit

theorem problem?_eq_none_iff {c : Config} : c.problem? = none ↔ c.Valid := by
  unfold problem? Valid
  cases enabled : c.tsn.enabled <;> cases indexed : c.association.enableIndexing <;>
    simp [Nat.pos_iff_ne_zero]

end Config

end SctpTrace
