import SctpTrace.Wire.Chunk

/-!
A datagram as its common header and a list of raw chunks. The walk over the chunks ends where fewer
octets remain than a chunk header has, or at a chunk length that cannot be right.
-/
namespace SctpTrace.Wire

structure RawChunk where
  /-- Where the chunk header starts in the datagram. -/
  offset : Nat
  header : ChunkHeader
  value : Bytes
  deriving DecidableEq, Repr

def RawChunk.decode (raw : RawChunk) : Except WireError Chunk := Chunk.decode raw.header raw.value

structure ChunkWalk where
  chunks : List RawChunk
  /-- The chunk length that ended the walk. -/
  lengthError : Option WireError
  /-- Octets after the last chunk, too few for a chunk header. -/
  trailing : Nat
  deriving DecidableEq, Repr

/-- One chunk off the front: its header, its value, how many octets pad it, and what follows. -/
structure ChunkStep where
  header : ChunkHeader
  value : Bytes
  padding : Nat
  rest : Bytes
  deriving DecidableEq, Repr

inductive FrontChunk where
  | absent
  | badLength (declared : UInt16)
  | found (step : ChunkStep)
  deriving DecidableEq, Repr

/- The last chunk of a datagram may leave its padding out. -/
def frontChunk (bytes : Bytes) : FrontChunk :=
  match ChunkHeader.read? bytes with
  | none => .absent
  | some (header, afterHeader) =>
    if header.length.toNat < ChunkHeader.size then .badLength header.length
    else
      match Bytes.cut? (header.length.toNat - ChunkHeader.size) afterHeader with
      | none => .badLength header.length
      | some (value, afterValue) =>
        let (padding, rest) := afterValue.splitAt (paddingLength header.length.toNat)
        .found ⟨header, value, padding.length, rest⟩

theorem frontChunk_length {bytes : Bytes} {s : ChunkStep} (h : frontChunk bytes = .found s) :
    4 ≤ s.header.length.toNat ∧ s.value.length + 4 = s.header.length.toNat ∧
      bytes.length = s.header.length.toNat + s.padding + s.rest.length := by
  unfold frontChunk at h
  split at h
  · cases h
  · rename_i header afterHeader read
    have headerLength := ChunkHeader.read?_length read
    split at h
    · cases h
    · rename_i bound
      split at h
      · cases h
      · rename_i value afterValue taken
        obtain ⟨split, valueLength⟩ := Bytes.cut?_eq_some_iff.mp taken
        have total := congrArg List.length split
        simp only [List.splitAt_eq, FrontChunk.found.injEq] at h
        subst h
        simp only [ChunkHeader.size, List.length_append, List.length_take,
          List.length_drop] at headerLength bound valueLength total ⊢
        omega

def walk (offset : Nat) (bytes : Bytes) : ChunkWalk :=
  match _found : frontChunk bytes with
  | .absent => ⟨[], none, bytes.length⟩
  | .badLength declared => ⟨[], some (.invalidLength offset declared bytes.length), 0⟩
  | .found s =>
    let later := walk (offset + s.header.length.toNat + s.padding) s.rest
    { later with chunks := ⟨offset, s.header, s.value⟩ :: later.chunks }
termination_by bytes.length
decreasing_by
  have shrinks := frontChunk_length _found
  omega

structure Packet where
  header : CommonHeader
  chunks : List RawChunk
  lengthError : Option WireError
  trailing : Nat
  deriving DecidableEq, Repr

/-- Only a datagram shorter than the common header is refused. -/
def Packet.decode (datagram : Bytes) : Except WireError Packet :=
  match CommonHeader.read? datagram with
  | none => .error (.truncatedHeader datagram.length)
  | some (header, rest) =>
    let found := walk CommonHeader.size rest
    .ok ⟨header, found.chunks, found.lengthError, found.trailing⟩

end SctpTrace.Wire
