import SctpTrace.Proofs.Wire.Readers
import SctpTrace.Proofs.Wire.Written
import SctpTrace.Checksum.Verify

/-!
The reading of a datagram with every operation that is not defined everywhere written out: none says
that octets were read, skipped or cut off that are not there, or that a number left its type. A
length is checked first, and what is read after that relies on the check. Everything is read as it
should be (`decode_eq`, `chunk_eq`).
-/
namespace SctpTrace.Guarded

open Bytes Wire

/-- A number that has to fit in 32 bits. -/
def word (n : Nat) : Option Nat := if n < 4294967296 then some n else none

def minus (a b : Nat) : Option Nat := if b ≤ a then some (a - b) else none

theorem word_eq {n : Nat} (fits : n < 4294967296) : word n = some n := if_pos fits

theorem word_eq_none_iff {n : Nat} : word n = none ↔ 4294967296 ≤ n := by
  rw [word]
  split
  · rename_i fits
    exact iff_of_false (by rintro ⟨⟩) (Nat.not_le.mpr fits)
  · rename_i beyond
    exact iff_of_true rfl (Nat.not_lt.mp beyond)

theorem minus_eq {a b : Nat} (below : b ≤ a) : minus a b = some (a - b) := if_pos below

/-- Fewer octets than needed are not read; otherwise the reader must not meet their end. -/
def readAfter {α : Type} (needed : Nat) (read? : Bytes → Option α) (bytes : Bytes) :
    Option (Option α) :=
  if bytes.length < needed then some none else (read? bytes).map some

theorem readAfter_eq {α : Type} {needed : Nat} {read? : Bytes → Option α}
    (holds : Holds needed read?) (bytes : Bytes) :
    readAfter needed read? bytes = some (read? bytes) := by
  unfold readAfter
  cases read : read? bytes with
  | none =>
    have short : ¬ needed ≤ bytes.length := by
      rw [← holds bytes, read]
      exact Bool.false_ne_true
    rw [if_pos (Nat.lt_of_not_le short)]
  | some a =>
    have long : needed ≤ bytes.length := by
      rw [← holds bytes, read]
      rfl
    rw [if_neg (Nat.not_lt.mpr long), Option.map_some]

def frontChunk (bytes : Bytes) : Option FrontChunk := do
  match ← readAfter ChunkHeader.size ChunkHeader.read? bytes with
  | none => return .absent
  | some (header, _) =>
    let length := header.length.toNat
    if length < ChunkHeader.size ∨ bytes.length < length then return .badLength header.length
    else
      let (_, afterHeader) ← cut? ChunkHeader.size bytes
      let size ← minus length ChunkHeader.size
      let (value, afterValue) ← cut? size afterHeader
      let (padding, rest) ← cut? (min (paddingLength length) afterValue.length) afterValue
      return .found ⟨header, value, padding.length, rest⟩

theorem cut?_min (n : Nat) (bytes : Bytes) :
    cut? (min n bytes.length) bytes = some (bytes.take n, bytes.drop n) :=
  cut?_eq_some_iff.mpr ⟨(List.take_append_drop n bytes).symm, List.length_take⟩

theorem frontChunk_eq (bytes : Bytes) : frontChunk bytes = some (Wire.frontChunk bytes) := by
  unfold frontChunk
  rw [readAfter_eq ChunkHeader.takes.holds, Wire.frontChunk_eq_of_front, ChunkHeader.front?]
  cases read : ChunkHeader.read? bytes with
  | none => rfl
  | some headed =>
    obtain ⟨header, afterHeader⟩ := headed
    obtain ⟨long, rfl⟩ := ChunkHeader.takes.rest_eq read
    simp only [Option.bind_eq_bind, Option.bind_some, Option.map_some]
    split
    · rfl
    · rename_i right
      have inside :
          header.length.toNat - ChunkHeader.size ≤ (bytes.drop ChunkHeader.size).length := by
        rw [List.length_drop]
        omega
      have whole : ChunkHeader.size + (header.length.toNat - ChunkHeader.size) =
          header.length.toNat := by omega
      rw [cut?_eq long, minus_eq (by omega)]
      simp only [Option.bind_some, cut?_eq inside, cut?_min, List.length_take, List.length_drop,
        List.drop_drop, whole]
      rfl

def walk (offset : Nat) (bytes : Bytes) : Option ChunkWalk :=
  match _found : frontChunk bytes with
  | none => none
  | some .absent => some ⟨[], none, bytes.length⟩
  | some (.badLength declared) =>
    some ⟨[], some (.invalidLength offset declared bytes.length), 0⟩
  | some (.found s) =>
    (walk (offset + s.header.length.toNat + s.padding) s.rest).map fun later =>
      { later with chunks := ⟨offset, s.header, s.value⟩ :: later.chunks }
termination_by bytes.length
decreasing_by
  rw [frontChunk_eq, Option.some.injEq] at _found
  have shrinks := frontChunk_length _found
  omega

theorem walk_of_front (offset : Nat) (bytes : Bytes) (front : FrontChunk) :
    frontChunk bytes = some front → walk offset bytes =
      match front with
      | .absent => some ⟨[], none, bytes.length⟩
      | .badLength declared => some ⟨[], some (.invalidLength offset declared bytes.length), 0⟩
      | .found s =>
        (walk (offset + s.header.length.toNat + s.padding) s.rest).map fun later =>
          { later with chunks := ⟨offset, s.header, s.value⟩ :: later.chunks } := by
  intro here
  rw [walk]
  split <;> rename_i same <;> rw [here] at same <;> cases same <;> rfl

theorem walk_eq (offset : Nat) (bytes : Bytes) :
    walk offset bytes = some (Wire.walk offset bytes) := by
  have front := fun offset bytes => walk_of_front offset bytes _ (frontChunk_eq bytes)
  induction offset, bytes using Wire.walk.induct with
  | case1 offset bytes absent => rw [front, walk_of_absent absent, absent]
  | case2 offset bytes declared bad => rw [front, walk_of_badLength bad, bad]
  | case3 offset bytes s found ih =>
    rw [front, walk_of_found found, found]
    simp only [ih, Option.map_some]

def decode (datagram : Bytes) : Option (Except WireError Packet) := do
  match ← readAfter CommonHeader.size CommonHeader.read? datagram with
  | none => return .error (.truncatedHeader datagram.length)
  | some (header, rest) =>
    let found ← walk CommonHeader.size rest
    return .ok ⟨header, found.chunks, found.lengthError, found.trailing⟩

theorem decode_eq (datagram : Bytes) : decode datagram = some (Packet.decode datagram) := by
  unfold decode Packet.decode
  rw [readAfter_eq CommonHeader.takes.holds]
  cases CommonHeader.read? datagram with
  | none => rfl
  | some headed => simp only [Option.bind_eq_bind, Option.bind_some, walk_eq]; rfl

/- The value of a chunk. -/

def fixedFields {α : Type} (type : ChunkType) (needed : Nat) (read? : Bytes → Option α)
    (value : Bytes) : Option (Except WireError α) :=
  (readAfter needed read? value).map (orTooShort type value needed)

theorem fixedFields_eq {α : Type} {type : ChunkType} {needed : Nat} {read? : Bytes → Option α}
    (holds : Holds needed read?) (value : Bytes) :
    fixedFields type needed read? value = some (orTooShort type value needed (read? value)) := by
  rw [fixedFields, readAfter_eq holds, Option.map_some]

def sackChunk (nonRenegable : Bool) (value : Bytes) : Option (Except WireError SackChunk) := do
  match ← readAfter (SackFields.size nonRenegable) (SackFields.read? nonRenegable) value with
  | none =>
    return orTooShort (SackChunk.chunkType nonRenegable) value (SackFields.size nonRenegable) none
  | some (fields, bytes) =>
    if value.length < fields.needed nonRenegable then
      return orTooShort (SackChunk.chunkType nonRenegable) value (fields.needed nonRenegable) none
    else
      let lists ← SackChunk.readLists? fields bytes
      return .ok lists

theorem sackChunk_eq (nonRenegable : Bool) (value : Bytes) :
    sackChunk nonRenegable value = some (SackChunk.decode nonRenegable value) := by
  unfold sackChunk
  rw [readAfter_eq (SackFields.takes nonRenegable).holds]
  cases read : SackFields.read? nonRenegable value with
  | none =>
    rw [SackChunk.decode, read]
    rfl
  | some front =>
    obtain ⟨fields, bytes⟩ := front
    obtain ⟨long, rfl⟩ := (SackFields.takes nonRenegable).rest_eq read
    have whole : SackChunk.decode nonRenegable value =
        orTooShort (SackChunk.chunkType nonRenegable) value (fields.needed nonRenegable)
          (SackChunk.readLists? fields (value.drop (SackFields.size nonRenegable))) := by
      rw [SackChunk.decode, read]
      rfl
    have lists := SackChunk.holds fields (value.drop (SackFields.size nonRenegable))
    rw [List.length_drop] at lists
    simp only [Option.bind_eq_bind, Option.bind_some, whole]
    by_cases short : value.length < fields.needed nonRenegable
    · have missing : SackChunk.readLists? fields
          (value.drop (SackFields.size nonRenegable)) = none := by
        rw [← Option.not_isSome_iff_eq_none, lists]
        simp only [SackFields.needed] at short
        omega
      rw [if_pos short, missing]
      rfl
    · obtain ⟨chunk, found⟩ := Option.isSome_iff_exists.mp (lists.mpr (by
        simp only [SackFields.needed] at short
        omega))
      rw [if_neg short, found]
      rfl

def chunk (header : ChunkHeader) (value : Bytes) : Option (Except WireError Chunk) :=
  match ChunkType.ofCode? header.code with
  | some .data =>
    (fixedFields .data DataChunk.fixed (DataChunk.read? header.flags) value).map (·.map .data)
  | some .iData =>
    (fixedFields .iData InterleavedChunk.fixed (InterleavedChunk.read? header.flags) value).map
      (·.map .interleaved)
  | some .sack => (sackChunk false value).map (·.map .sack)
  | some .nrSack => (sackChunk true value).map (·.map .nrSack)
  | some .init => (fixedFields .init InitChunk.fixed InitChunk.read? value).map (·.map .init)
  | some .initAck =>
    (fixedFields .initAck InitChunk.fixed InitChunk.read? value).map (·.map .initAck)
  | _ => some (Chunk.decode header value)

theorem chunk_eq (header : ChunkHeader) (value : Bytes) :
    chunk header value = some (Chunk.decode header value) := by
  unfold chunk Chunk.decode
  split <;> simp only [*, sackChunk_eq, fixedFields_eq (DataChunk.holds _),
    fixedFields_eq (InterleavedChunk.holds _), fixedFields_eq InitChunk.holds, Option.map_some] <;>
    rfl

/- The checksum. -/

def zeroed (datagram : Bytes) : Option Bytes :=
  if datagram.length < Checksum.fieldEnd then some datagram
  else do
    let (front, _) ← cut? Checksum.fieldOffset datagram
    let (_, back) ← cut? Checksum.fieldEnd datagram
    return front ++ [0, 0, 0, 0] ++ back

theorem zeroed_eq (datagram : Bytes) : zeroed datagram = some (Checksum.zeroed datagram) := by
  unfold zeroed Checksum.zeroed
  split
  · rfl
  · rename_i long
    have field : Checksum.fieldOffset ≤ Checksum.fieldEnd := by decide
    rw [cut?_eq (by omega), cut?_eq (by omega)]
    rfl

def crcVerdict (datagram : Bytes) : Option Checksum.Verdict :=
  (zeroed datagram).map fun bytes =>
    Checksum.compare .crc32c (Checksum.declared datagram)
      (Checksum.reverseOctets (Checksum.Crc.crc32c bytes))

def adlerVerdict (datagram : Bytes) : Option Checksum.Verdict :=
  (zeroed datagram).map fun bytes =>
    Checksum.compare .adler32 (Checksum.declared datagram) (Checksum.Adler.adler32 bytes)

def verify (datagram : Bytes) (reported : Nat) (method : Checksum.Method) :
    Option Checksum.Verdict :=
  if Checksum.checkable datagram reported then
    match method with
    | .none => some (Checksum.noVerdict .none datagram)
    | .adler32 => adlerVerdict datagram
    | .crc32c => crcVerdict datagram
    | .automatic => do
      let crc ← crcVerdict datagram
      if crc.status = .verified then return crc
      let adler ← adlerVerdict datagram
      return if adler.status = .verified then adler else crc
  else some (Checksum.noVerdict method datagram)

theorem verify_eq (datagram : Bytes) (reported : Nat) (method : Checksum.Method) :
    verify datagram reported method = some (Checksum.verify datagram reported method) := by
  have crc : crcVerdict datagram = some (Checksum.crcVerdict datagram) := by
    rw [crcVerdict, zeroed_eq]
    rfl
  have adler : adlerVerdict datagram = some (Checksum.adlerVerdict datagram) := by
    rw [adlerVerdict, zeroed_eq]
    rfl
  unfold verify Checksum.verify
  split
  · cases method with
    | none => rfl
    | adler32 => exact adler
    | crc32c => exact crc
    | automatic =>
      simp only [crc, adler, Option.bind_eq_bind, Option.bind_some, Checksum.automaticVerdict]
      by_cases byCrc : (Checksum.crcVerdict datagram).status = .verified
      · simp [byCrc]
      · simp [byCrc]
  · rfl

end SctpTrace.Guarded
