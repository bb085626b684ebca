import SctpTrace.Bytes

/-!
Adler-32: the sum of the octets after one, and the sum of those sums, both modulo 65521.
-/
namespace SctpTrace.Checksum.Adler

def modulus : Nat := 65521

structure Sums where
  low : Nat
  high : Nat
  deriving DecidableEq, Repr

def start : Sums := ⟨1, 0⟩

def absorb (s : Sums) (octet : UInt8) : Sums :=
  let low := (s.low + octet.toNat) % modulus
  ⟨low, (s.high + low) % modulus⟩

def Sums.word (s : Sums) : UInt32 := UInt32.ofNat (s.high * 65536 + s.low)

def adler32 (bytes : Bytes) : UInt32 := (bytes.foldl absorb start).word

example : adler32 [0x57, 0x69, 0x6b, 0x69, 0x70, 0x65, 0x64, 0x69, 0x61] = 0x11E60398 := by decide

theorem absorb_bounds (s : Sums) (octet : UInt8) :
    (absorb s octet).low < modulus ∧ (absorb s octet).high < modulus :=
  ⟨Nat.mod_lt _ (by decide), Nat.mod_lt _ (by decide)⟩

theorem foldl_absorb_bounds {s : Sums} (bytes : Bytes) (h : s.low < modulus ∧ s.high < modulus) :
    (bytes.foldl absorb s).low < modulus ∧ (bytes.foldl absorb s).high < modulus := by
  induction bytes generalizing s with
  | nil => exact h
  | cons b rest ih => exact ih (absorb_bounds s b)
end SctpTrace.Checksum.Adler
