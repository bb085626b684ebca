import SctpTrace.Wire.Packet

/-!
A datagram written chunk by chunk is read back as these chunks.
-/
namespace SctpTrace.Wire

structure Template where
  type : ChunkType
  flags : UInt8
  value : Bytes
  deriving DecidableEq, Repr

namespace Template

def write (c : Template) : Bytes := writeChunk c.type c.flags c.value

def header (c : Template) : ChunkHeader :=
  ⟨c.type.code, c.flags, UInt16.ofNat (ChunkHeader.size + c.value.length)⟩

def step (c : Template) (rest : Bytes) : ChunkStep :=
  ⟨c.header, c.value, paddingLength c.value.length, rest⟩

def Fits (c : Template) : Prop := c.value.length ≤ 65531

end Template

def rawChunks : Nat → List Template → List RawChunk
  | _, [] => []
  | offset, c :: rest =>
    ⟨offset, c.header, c.value⟩ ::
      rawChunks (offset + c.header.length.toNat + paddingLength c.value.length) rest

variable {c : Template} {bytes rest : Bytes} {offset : Nat}

theorem Template.length_header (fits : c.Fits) : c.header.length.toNat = 4 + c.value.length := by
  unfold Template.Fits at fits
  simp only [Template.header, ChunkHeader.size, UInt16.toNat_ofNat']
  omega

theorem frontChunk_write (fits : c.Fits) : frontChunk (c.write ++ rest) = .found (c.step rest) := by
  have length := Template.length_header fits
  have read : ChunkHeader.read? (c.write ++ rest) =
      some (c.header, c.value ++ (List.replicate (paddingLength c.value.length) 0 ++ rest)) := by
    simp only [Template.write, writeChunk, List.append_assoc]
    exact ChunkHeader.read?_write c.header _
  have cut : Bytes.cut? (c.header.length.toNat - ChunkHeader.size)
      (c.value ++ (List.replicate (paddingLength c.value.length) 0 ++ rest)) =
        some (c.value, List.replicate (paddingLength c.value.length) 0 ++ rest) := by
    rw [Bytes.cut?_eq_some_iff]
    refine ⟨rfl, ?_⟩
    rw [length, ChunkHeader.size]
    omega
  have long : ¬ c.header.length.toNat < ChunkHeader.size := by
    rw [length, ChunkHeader.size]
    omega
  have padding : paddingLength c.header.length.toNat = paddingLength c.value.length := by
    rw [length]
    unfold paddingLength
    omega
  simp only [frontChunk, read, long, ↓reduceIte, cut, padding, List.splitAt_eq]
  rw [List.take_left' List.length_replicate, List.drop_left' List.length_replicate,
    List.length_replicate]
  rfl

theorem walk_of_found {s : ChunkStep} (found : frontChunk bytes = .found s) :
    walk offset bytes =
      { walk (offset + s.header.length.toNat + s.padding) s.rest with
        chunks := ⟨offset, s.header, s.value⟩ ::
          (walk (offset + s.header.length.toNat + s.padding) s.rest).chunks } := by
  rw [walk]
  split
  · rename_i absent
    rw [found] at absent
    cases absent
  · rename_i bad
    rw [found] at bad
    cases bad
  · rename_i t same
    rw [found] at same
    cases same
    rfl

theorem walk_of_badLength {declared : UInt16} (bad : frontChunk bytes = .badLength declared) :
    walk offset bytes = ⟨[], some (.invalidLength offset declared bytes.length), 0⟩ := by
  rw [walk]
  split
  · rename_i absent
    rw [bad] at absent
    cases absent
  · rename_i same
    rw [bad] at same
    cases same
    rfl
  · rename_i found
    rw [bad] at found
    cases found

theorem walk_of_absent (absent : frontChunk bytes = .absent) :
    walk offset bytes = ⟨[], none, bytes.length⟩ := by
  rw [walk]
  split
  · rfl
  · rename_i bad
    rw [absent] at bad
    cases bad
  · rename_i found
    rw [absent] at found
    cases found

theorem walk_write (chunks : List Template) (fit : ∀ c ∈ chunks, c.Fits) (offset : Nat) :
    walk offset (chunks.flatMap Template.write) = ⟨rawChunks offset chunks, none, 0⟩ := by
  induction chunks generalizing offset with
  | nil => exact walk_of_absent rfl
  | cons c rest ih =>
    rw [List.flatMap_cons, walk_of_found (frontChunk_write (fit c List.mem_cons_self))]
    simp only [Template.step]
    rw [ih fun c there => fit c (List.mem_cons_of_mem _ there)]
    rfl

theorem decode_write (header : CommonHeader) (chunks : List Template)
    (fit : ∀ c ∈ chunks, c.Fits) :
    Packet.decode (header.write ++ chunks.flatMap Template.write) =
      .ok ⟨header, rawChunks CommonHeader.size chunks, none, 0⟩ := by
  simp only [Packet.decode, CommonHeader.read?_write, walk_write chunks fit]

theorem forall_rawChunks {P : RawChunk → Prop} {chunks : List Template}
    (each : ∀ c ∈ chunks, ∀ offset, P ⟨offset, c.header, c.value⟩) :
    ∀ raw ∈ rawChunks offset chunks, P raw := by
  induction chunks generalizing offset with
  | nil =>
    intro raw absent
    cases absent
  | cons c rest ih =>
    intro raw there
    rcases List.mem_cons.mp there with here | later
    · rw [here]
      exact each c List.mem_cons_self offset
    · exact ih (fun c inside => each c (List.mem_cons_of_mem _ inside)) raw later

def DataChunk.template (c : DataChunk) : Template := ⟨.data, c.flags, c.value⟩

theorem decode_data (c : DataChunk) (offset : Nat) :
    RawChunk.decode ⟨offset, c.template.header, c.template.value⟩ = .ok (.data c) := by
  simp [RawChunk.decode, Chunk.decode, DataChunk.template, Template.header, DataChunk.decode,
    DataChunk.read?_value, orTooShort, Except.map]

end SctpTrace.Wire
