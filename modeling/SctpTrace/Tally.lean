/-!
Counts of what a session met. Every step of the analysis reports a tally, and tallies add up.
-/
namespace SctpTrace

structure Tally where
  checksumMismatches : Nat := 0
  duplicateFragments : Nat := 0
  malformedChunks : Nat := 0
  messagesReassembled : Nat := 0
  acknowledged : Nat := 0
  reneged : Nat := 0
  retransmissions : Nat := 0
  deriving DecidableEq, Repr

namespace Tally

def zero : Tally := {}

def add (s t : Tally) : Tally where
  checksumMismatches := s.checksumMismatches + t.checksumMismatches
  duplicateFragments := s.duplicateFragments + t.duplicateFragments
  malformedChunks := s.malformedChunks + t.malformedChunks
  messagesReassembled := s.messagesReassembled + t.messagesReassembled
  acknowledged := s.acknowledged + t.acknowledged
  reneged := s.reneged + t.reneged
  retransmissions := s.retransmissions + t.retransmissions

instance : Add Tally := ⟨add⟩

def sum (tallies : List Tally) : Tally := tallies.foldr add zero

/-- The counts that are not zero, by their full names. -/
def entries (t : Tally) : List (String × Nat) :=
  [("sctp_checksum_mismatches_total", t.checksumMismatches),
    ("sctp_duplicate_fragments_total", t.duplicateFragments),
    ("sctp_malformed_chunks_total", t.malformedChunks),
    ("sctp_messages_reassembled_total", t.messagesReassembled),
    ("sctp_tsn_acked_total", t.acknowledged),
    ("sctp_tsn_reneged_total", t.reneged),
    ("sctp_tsn_retransmissions_total", t.retransmissions)].filter fun e => e.2 != 0

theorem add_zero (t : Tally) : t.add zero = t := rfl

theorem zero_add (t : Tally) : zero.add t = t := by simp [add, zero]

theorem add_assoc (s t u : Tally) : (s.add t).add u = s.add (t.add u) := by
  simp [add, Nat.add_assoc]

end Tally

end SctpTrace
