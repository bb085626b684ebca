import SctpTrace.Bytes
import SctpTrace.Wire.ChunkType

/-!
The common header of a datagram, the header of a chunk, and what can be wrong with a datagram.
-/
namespace SctpTrace.Wire

structure CommonHeader where
  sourcePort : UInt16
  destinationPort : UInt16
  verificationTag : UInt32
  checksum : UInt32
  deriving DecidableEq, Repr

structure ChunkHeader where
  code : UInt8
  flags : UInt8
  /-- Octets of the header and the value, padding left out. -/
  length : UInt16
  deriving DecidableEq, Repr

def CommonHeader.size : Nat := 12

def ChunkHeader.size : Nat := 4

inductive WireError where
  | truncatedHeader (captured : Nat)
  | invalidLength (offset : Nat) (declared : UInt16) (remaining : Nat)
  /-- The lengths count the chunk header too. -/
  | tooShort (code : UInt8) (length minimum : Nat)
  deriving DecidableEq, Repr

def WireError.message : WireError → String
  | truncatedHeader captured =>
    "Datagram too short for common header: " ++ toString captured ++ " bytes"
  | invalidLength offset declared remaining =>
    "Chunk length " ++ toString declared.toNat ++ " invalid at offset " ++ toString offset ++
      " (" ++ toString remaining ++ " bytes remaining)"
  | tooShort code length minimum =>
    "Chunk type " ++ toString code.toNat ++ " too short: " ++ toString length ++ " bytes, need " ++
      toString minimum

open Bytes

namespace CommonHeader

def write (h : CommonHeader) : Bytes :=
  write16 h.sourcePort ++ write16 h.destinationPort ++ write32 h.verificationTag ++
    write32 h.checksum

def read? (bytes : Bytes) : Option (CommonHeader × Bytes) := do
  let (sourcePort, bytes) ← word16? bytes
  let (destinationPort, bytes) ← word16? bytes
  let (verificationTag, bytes) ← word32? bytes
  let (checksum, bytes) ← word32? bytes
  return (⟨sourcePort, destinationPort, verificationTag, checksum⟩, bytes)

@[simp] theorem read?_write (h : CommonHeader) (rest : Bytes) :
    read? (h.write ++ rest) = some (h, rest) := by
  simp [read?, write, List.append_assoc]

end CommonHeader

namespace ChunkHeader

def write (h : ChunkHeader) : Bytes := [h.code, h.flags] ++ write16 h.length

def read? (bytes : Bytes) : Option (ChunkHeader × Bytes) := do
  let (code, bytes) ← octet? bytes
  let (flags, bytes) ← octet? bytes
  let (length, bytes) ← word16? bytes
  return (⟨code, flags, length⟩, bytes)

@[simp] theorem read?_write (h : ChunkHeader) (rest : Bytes) :
    read? (h.write ++ rest) = some (h, rest) := by
  simp [read?, write]

theorem read?_length {bytes rest : Bytes} {h : ChunkHeader} (read : read? bytes = some (h, rest)) :
    bytes.length = rest.length + size := by
  simp only [read?, Option.bind_eq_bind, Option.bind_eq_some_iff, Option.pure_def,
    Option.some.injEq, Prod.mk.injEq, Prod.exists] at read
  obtain ⟨code, afterCode, first, flags, afterFlags, second, length, afterLength, third, -, rfl⟩ :=
    read
  have one := octet?_length first
  have two := octet?_length second
  have three := word16?_length third
  simp only [size]
  omega

end ChunkHeader

end SctpTrace.Wire
