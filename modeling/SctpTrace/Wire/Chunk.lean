import SctpTrace.Wire.Header

/-!
The chunks that the analysis reads: DATA, I-DATA, SACK, NR-SACK, INIT, INIT-ACK, and the T bit of
ABORT and SHUTDOWN-COMPLETE. A value that ends before the fields that it must hold is too short.
-/
namespace SctpTrace.Wire

open Bytes

structure DataChunk where
  tsn : UInt32
  stream : UInt16
  sequence : UInt16
  protocolId : UInt32
  payload : Bytes
  unordered : Bool
  beginning : Bool
  ending : Bool
  deriving DecidableEq, Repr

/-- An I-DATA chunk: messages have an identifier, fragments a number within their message. -/
structure InterleavedChunk where
  tsn : UInt32
  stream : UInt16
  messageId : UInt32
  /-- The payload protocol identifier on the first fragment, the fragment number on the others. -/
  protocolIdOrNumber : UInt32
  payload : Bytes
  unordered : Bool
  beginning : Bool
  ending : Bool
  immediate : Bool
  deriving DecidableEq, Repr

/-- A range of offsets from the cumulative TSN ack, both ends included. -/
structure GapBlock where
  start : UInt16
  stop : UInt16
  deriving DecidableEq, Repr

structure SackChunk where
  cumulative : UInt32
  window : UInt32
  gaps : List GapBlock
  /-- The blocks that the receiver promises to keep, in an NR-SACK only. -/
  nonRenegableGaps : List GapBlock
  duplicates : List UInt32
  deriving DecidableEq, Repr

structure InitChunk where
  initiateTag : UInt32
  window : UInt32
  outboundStreams : UInt16
  inboundStreams : UInt16
  initialTsn : UInt32
  deriving DecidableEq, Repr

inductive Chunk where
  | data (chunk : DataChunk)
  | interleaved (chunk : InterleavedChunk)
  | sack (chunk : SackChunk)
  | nrSack (chunk : SackChunk)
  | init (chunk : InitChunk)
  | initAck (chunk : InitChunk)
  | abort (reflected : Bool)
  | shutdownComplete (reflected : Bool)
  | other (code : UInt8) (length : UInt16)
  deriving DecidableEq, Repr

def paddingLength (length : Nat) : Nat := (4 - length % 4) % 4

/- The length field has 16 bits: it wraps for a value of more than 65531 octets. -/
def writeChunk (type : ChunkType) (flags : UInt8) (value : Bytes) : Bytes :=
  ChunkHeader.write ⟨type.code, flags, UInt16.ofNat (ChunkHeader.size + value.length)⟩ ++ value ++
    List.replicate (paddingLength value.length) 0

def orTooShort {α : Type} (type : ChunkType) (value : Bytes) (minimum : Nat) :
    Option α → Except WireError α
  | some a => .ok a
  | none =>
    .error (.tooShort type.code (ChunkHeader.size + value.length) (ChunkHeader.size + minimum))

namespace DataChunk

def fixed : Nat := 12

def flags (c : DataChunk) : UInt8 :=
  Flag.placement c.unordered c.beginning c.ending

def value (c : DataChunk) : Bytes :=
  write32 c.tsn ++ write16 c.stream ++ write16 c.sequence ++ write32 c.protocolId ++ c.payload

def write (c : DataChunk) : Bytes := writeChunk .data c.flags c.value

def read? (flags : UInt8) (value : Bytes) : Option DataChunk := do
  let (tsn, bytes) ← word32? value
  let (stream, bytes) ← word16? bytes
  let (sequence, bytes) ← word16? bytes
  let (protocolId, payload) ← word32? bytes
  return ⟨tsn, stream, sequence, protocolId, payload, Flag.isSet Flag.unordered flags,
    Flag.isSet Flag.beginning flags, Flag.isSet Flag.ending flags⟩

def decode (flags : UInt8) (value : Bytes) : Except WireError DataChunk :=
  orTooShort .data value fixed (read? flags value)

theorem read?_value (c : DataChunk) : read? c.flags c.value = some c := by
  obtain ⟨unordered, beginning, ending⟩ := Flag.isSet_placement c.unordered c.beginning c.ending
  simp [read?, value, flags, List.append_assoc, unordered, beginning, ending]

end DataChunk

namespace InterleavedChunk

def fixed : Nat := 16

def number (c : InterleavedChunk) : UInt32 := if c.beginning then 0 else c.protocolIdOrNumber

def protocolId? (c : InterleavedChunk) : Option UInt32 :=
  if c.beginning then some c.protocolIdOrNumber else none

def flags (c : InterleavedChunk) : UInt8 :=
  Flag.bit Flag.immediate c.immediate ||| Flag.placement c.unordered c.beginning c.ending

def value (c : InterleavedChunk) : Bytes :=
  write32 c.tsn ++ write16 c.stream ++ write16 0 ++ write32 c.messageId ++
    write32 c.protocolIdOrNumber ++ c.payload

def write (c : InterleavedChunk) : Bytes := writeChunk .iData c.flags c.value

def read? (flags : UInt8) (value : Bytes) : Option InterleavedChunk := do
  let (tsn, bytes) ← word32? value
  let (stream, bytes) ← word16? bytes
  let (_, bytes) ← word16? bytes
  let (messageId, bytes) ← word32? bytes
  let (protocolIdOrNumber, payload) ← word32? bytes
  return ⟨tsn, stream, messageId, protocolIdOrNumber, payload, Flag.isSet Flag.unordered flags,
    Flag.isSet Flag.beginning flags, Flag.isSet Flag.ending flags,
    Flag.isSet Flag.immediate flags⟩

def decode (flags : UInt8) (value : Bytes) : Except WireError InterleavedChunk :=
  orTooShort .iData value fixed (read? flags value)

theorem read?_value (c : InterleavedChunk) : read? c.flags c.value = some c := by
  obtain ⟨unordered, beginning, ending, immediate⟩ :=
    Flag.isSet_immediate_placement c.immediate c.unordered c.beginning c.ending
  simp [read?, value, flags, List.append_assoc, unordered, beginning, ending, immediate]

end InterleavedChunk

namespace GapBlock

def write (b : GapBlock) : Bytes := write16 b.start ++ write16 b.stop

def read? (bytes : Bytes) : Option (GapBlock × Bytes) := do
  let (start, bytes) ← word16? bytes
  let (stop, bytes) ← word16? bytes
  return (⟨start, stop⟩, bytes)

@[simp] theorem read?_write (b : GapBlock) (rest : Bytes) :
    read? (b.write ++ rest) = some (b, rest) := by
  simp [read?, write, List.append_assoc]

end GapBlock

structure SackFields where
  cumulative : UInt32
  window : UInt32
  gapCount : Nat
  nonRenegableCount : Nat
  duplicateCount : Nat
  deriving DecidableEq, Repr

namespace SackFields

/- An NR-SACK has a second block count, and a reserved word after the last count. -/
def read? (nonRenegable : Bool) (value : Bytes) : Option (SackFields × Bytes) := do
  let (cumulative, bytes) ← word32? value
  let (window, bytes) ← word32? bytes
  let (gapCount, bytes) ← word16? bytes
  if nonRenegable then
    let (nonRenegableCount, bytes) ← word16? bytes
    let (duplicateCount, bytes) ← word16? bytes
    let (_, bytes) ← word16? bytes
    return (⟨cumulative, window, gapCount.toNat, nonRenegableCount.toNat,
      duplicateCount.toNat⟩, bytes)
  else
    let (duplicateCount, bytes) ← word16? bytes
    return (⟨cumulative, window, gapCount.toNat, 0, duplicateCount.toNat⟩, bytes)

def size (nonRenegable : Bool) : Nat := if nonRenegable then 16 else 12

def needed (f : SackFields) (nonRenegable : Bool) : Nat :=
  size nonRenegable + (f.gapCount + f.nonRenegableCount) * 4 + f.duplicateCount * 4

end SackFields

namespace SackChunk

def chunkType (nonRenegable : Bool) : ChunkType := if nonRenegable then .nrSack else .sack

def value (c : SackChunk) (nonRenegable : Bool) : Bytes :=
  if nonRenegable then
    write32 c.cumulative ++ write32 c.window ++ write16 (UInt16.ofNat c.gaps.length) ++
      write16 (UInt16.ofNat c.nonRenegableGaps.length) ++
      write16 (UInt16.ofNat c.duplicates.length) ++ write16 0 ++ c.gaps.flatMap GapBlock.write ++
      c.nonRenegableGaps.flatMap GapBlock.write ++ c.duplicates.flatMap write32
  else
    write32 c.cumulative ++ write32 c.window ++ write16 (UInt16.ofNat c.gaps.length) ++
      write16 (UInt16.ofNat c.duplicates.length) ++ c.gaps.flatMap GapBlock.write ++
      c.duplicates.flatMap write32

def write (c : SackChunk) (nonRenegable : Bool) : Bytes :=
  writeChunk (chunkType nonRenegable) 0 (c.value nonRenegable)

def readLists? (f : SackFields) (bytes : Bytes) : Option SackChunk := do
  let (gaps, bytes) ← many? GapBlock.read? f.gapCount bytes
  let (nonRenegableGaps, bytes) ← many? GapBlock.read? f.nonRenegableCount bytes
  let (duplicates, _) ← many? word32? f.duplicateCount bytes
  return ⟨f.cumulative, f.window, gaps, nonRenegableGaps, duplicates⟩

def decode (nonRenegable : Bool) (value : Bytes) : Except WireError SackChunk := do
  let (fields, bytes) ←
    orTooShort (chunkType nonRenegable) value (SackFields.size nonRenegable)
      (SackFields.read? nonRenegable value)
  orTooShort (chunkType nonRenegable) value (fields.needed nonRenegable) (readLists? fields bytes)

end SackChunk

namespace InitChunk

def fixed : Nat := 16

def value (c : InitChunk) : Bytes :=
  write32 c.initiateTag ++ write32 c.window ++ write16 c.outboundStreams ++
    write16 c.inboundStreams ++ write32 c.initialTsn

def chunkType (ack : Bool) : ChunkType := if ack then .initAck else .init

def write (c : InitChunk) (ack : Bool) : Bytes := writeChunk (chunkType ack) 0 c.value

/-- Parameters after the fixed fields are not read. -/
def read? (value : Bytes) : Option InitChunk := do
  let (initiateTag, bytes) ← word32? value
  let (window, bytes) ← word32? bytes
  let (outboundStreams, bytes) ← word16? bytes
  let (inboundStreams, bytes) ← word16? bytes
  let (initialTsn, _) ← word32? bytes
  return ⟨initiateTag, window, outboundStreams, inboundStreams, initialTsn⟩

def decode (ack : Bool) (value : Bytes) : Except WireError InitChunk :=
  orTooShort (chunkType ack) value fixed (read? value)

theorem read?_value (c : InitChunk) : read? c.value = some c := by
  have last := word32?_write c.initialTsn []
  rw [List.append_nil] at last
  simp [read?, value, List.append_assoc, last]

end InitChunk

namespace Chunk

def decode (header : ChunkHeader) (value : Bytes) : Except WireError Chunk :=
  match ChunkType.ofCode? header.code with
  | some .data => (DataChunk.decode header.flags value).map data
  | some .iData => (InterleavedChunk.decode header.flags value).map interleaved
  | some .sack => (SackChunk.decode false value).map sack
  | some .nrSack => (SackChunk.decode true value).map nrSack
  | some .init => (InitChunk.decode false value).map init
  | some .initAck => (InitChunk.decode true value).map initAck
  | some .abort => .ok (abort (Flag.isSet Flag.reflected header.flags))
  | some .shutdownComplete => .ok (shutdownComplete (Flag.isSet Flag.reflected header.flags))
  | _ => .ok (other header.code header.length)

def write? : Chunk → Option Bytes
  | data c => some c.write
  | interleaved c => some c.write
  | sack c => some (c.write false)
  | nrSack c => some (c.write true)
  | init c => some (c.write false)
  | initAck c => some (c.write true)
  | _ => none

end Chunk

end SctpTrace.Wire
