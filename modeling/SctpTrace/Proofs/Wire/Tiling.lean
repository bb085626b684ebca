import SctpTrace.Proofs.Wire.Readers
import SctpTrace.Proofs.Wire.Written

/-!
Where the chunks of a datagram stand. They follow one another without a gap from the common header
on (`Tiles`), each whole and padded, up to an offset at which no chunk can be read (`Ends`).
-/
namespace SctpTrace.Wire

/-- Where a chunk ends, its padding left out. -/
def RawChunk.stop (c : RawChunk) : Nat := c.offset + c.header.length.toNat

/-- A chunk is where it says, and the datagram holds all of it. -/
structure RawChunk.Stands (d : Bytes) (c : RawChunk) : Prop where
  header : ChunkHeader.front? (d.drop c.offset) = some c.header
  long : ChunkHeader.size ≤ c.header.length.toNat
  inside : c.stop ≤ d.length
  value : c.value = (d.drop (c.offset + ChunkHeader.size)).take
    (c.header.length.toNat - ChunkHeader.size)

/-- The padding brings a chunk to a multiple of four, unless the datagram ends inside it. -/
structure RawChunk.Pads (d : Bytes) (c : RawChunk) (padding : Nat) : Prop where
  few : padding < 4
  full : (c.header.length.toNat + padding) % 4 = 0 ∨
    padding < paddingLength c.header.length.toNat ∧ c.stop + padding = d.length

inductive Tiles (d : Bytes) : Nat → List RawChunk → Nat → Prop where
  | nil (stop : Nat) : Tiles d stop [] stop
  | cons {c : RawChunk} {padding stop : Nat} {rest : List RawChunk} (stands : c.Stands d)
      (pads : c.Pads d padding) (later : Tiles d (c.stop + padding) rest stop) :
      Tiles d c.offset (c :: rest) stop

/-- Why no chunk is read at an offset, and what is reported of it. -/
inductive Ends (d : Bytes) (stop : Nat) : Option WireError → Nat → Prop where
  | badLength {header : ChunkHeader} (front : ChunkHeader.front? (d.drop stop) = some header)
      (room : ChunkHeader.size ≤ d.length - stop)
      (bad : header.length.toNat < ChunkHeader.size ∨ d.length - stop < header.length.toNat) :
      Ends d stop (some (.invalidLength stop header.length (d.length - stop))) 0
  | tooFew (few : d.length - stop < ChunkHeader.size) : Ends d stop none (d.length - stop)

variable {d bytes : Bytes} {offset : Nat}

theorem frontChunk_eq_absent_iff : frontChunk bytes = .absent ↔ bytes.length < ChunkHeader.size := by
  rw [frontChunk_eq_of_front, ← ChunkHeader.front?_eq_none_iff]
  split
  · rename_i nothing
    exact iff_of_true rfl nothing
  · rename_i header here
    rw [here]
    split <;> simp

theorem front_of_badLength {declared : UInt16} (bad : frontChunk bytes = .badLength declared) :
    ∃ header, ChunkHeader.front? bytes = some header ∧ header.length = declared ∧
      (header.length.toNat < ChunkHeader.size ∨ bytes.length < header.length.toNat) := by
  rw [frontChunk_eq_of_front] at bad
  split at bad
  · cases bad
  · rename_i header here
    split at bad
    · rename_i wrong
      cases bad
      exact ⟨header, here, rfl, wrong⟩
    · cases bad

theorem front_of_found {s : ChunkStep} (found : frontChunk bytes = .found s) :
    ChunkHeader.front? bytes = some s.header ∧ ChunkHeader.size ≤ s.header.length.toNat ∧
      s.header.length.toNat ≤ bytes.length ∧
      s.value =
        (bytes.drop ChunkHeader.size).take (s.header.length.toNat - ChunkHeader.size) ∧
      s.padding =
        min (paddingLength s.header.length.toNat) (bytes.length - s.header.length.toNat) ∧
      s.rest = bytes.drop (s.header.length.toNat + paddingLength s.header.length.toNat) := by
  rw [frontChunk_eq_of_front] at found
  split at found
  · cases found
  · rename_i header here
    split at found
    · cases found
    · rename_i right
      cases found
      refine ⟨here, ?_, ?_, rfl, rfl, rfl⟩ <;> dsimp only <;> omega

theorem pads_of_room {c : RawChunk} (inside : c.stop ≤ d.length) :
    c.Pads d (min (paddingLength c.header.length.toNat) (d.length - c.stop)) := by
  constructor
  · unfold paddingLength
    omega
  · by_cases room : paddingLength c.header.length.toNat ≤ d.length - c.stop
    · left
      rw [Nat.min_eq_left room, paddingLength]
      omega
    · right
      omega

theorem drop_min (bytes : Bytes) (n m : Nat) :
    bytes.drop (n + min m (bytes.length - n)) = bytes.drop (n + m) := by
  by_cases room : m ≤ bytes.length - n
  · rw [Nat.min_eq_left room]
  · rw [List.drop_of_length_le (by omega), List.drop_of_length_le (by omega)]

theorem walk_tiles (offset : Nat) (bytes : Bytes) (here : bytes = d.drop offset)
    (inside : offset ≤ d.length) : ∃ stop, Tiles d offset (walk offset bytes).chunks stop ∧
      stop ≤ d.length ∧ Ends d stop (walk offset bytes).lengthError (walk offset bytes).trailing := by
  have length : bytes.length = d.length - offset := by rw [here, List.length_drop]
  induction offset, bytes using walk.induct with
  | case1 offset bytes absent =>
    rw [walk_of_absent absent, length]
    rw [frontChunk_eq_absent_iff, length] at absent
    exact ⟨offset, .nil offset, inside, .tooFew absent⟩
  | case2 offset bytes declared bad =>
    rw [walk_of_badLength bad, length]
    obtain ⟨header, front, rfl, wrong⟩ := front_of_badLength bad
    have room := ChunkHeader.size_le_of_front? front
    rw [length] at wrong room
    exact ⟨offset, .nil offset, inside, .badLength (here ▸ front) room wrong⟩
  | case3 offset bytes s found ih =>
    rw [walk_of_found found]
    obtain ⟨front, long, fits, value, padding, rest⟩ := front_of_found found
    have room : bytes.length - s.header.length.toNat =
        d.length - (offset + s.header.length.toNat) := by omega
    have onward : s.rest = d.drop (offset + s.header.length.toNat + s.padding) := by
      rw [rest, padding, ← drop_min, here, List.drop_drop, List.length_drop]
      congr 1
      omega
    obtain ⟨stop, tiles, within, ends⟩ := ih onward (by omega) (by rw [onward, List.length_drop])
    have stands : RawChunk.Stands d ⟨offset, s.header, s.value⟩ := by
      refine ⟨here ▸ front, long, ?_, ?_⟩
      · simp only [RawChunk.stop]
        omega
      · rw [value, here, List.drop_drop]
    have pads : RawChunk.Pads d ⟨offset, s.header, s.value⟩ s.padding := by
      rw [padding, room]
      exact pads_of_room stands.inside
    exact ⟨stop, .cons stands pads tiles, within, ends⟩

def Packet.walked (p : Packet) : ChunkWalk := ⟨p.chunks, p.lengthError, p.trailing⟩

theorem Packet.decode_of_read? {header : CommonHeader}
    (read : CommonHeader.read? d = some (header, bytes)) :
    ∃ p, decode d = .ok p ∧ p.header = header ∧ p.walked = walk CommonHeader.size bytes := by
  refine ⟨⟨header, _, _, _⟩, ?_, rfl, rfl⟩
  rw [decode, read]

theorem Packet.decode_of_map {α : Type} {f : Packet → α} {a : α}
    (read : (decode d).toOption.map f = some a) : ∃ p, decode d = .ok p ∧ f p = a := by
  cases decoded : decode d with
  | error e =>
    rw [decoded] at read
    cases read
  | ok p =>
    rw [decoded] at read
    exact ⟨p, rfl, Option.some.inj read⟩

/-- Every datagram that holds the common header is read up to an offset. The chunks fill it up to
there, and what is reported of the rest is why no chunk stands there. -/
theorem decode_tiles (d : Bytes) (long : CommonHeader.size ≤ d.length) :
    ∃ p stop, Packet.decode d = .ok p ∧ Tiles d CommonHeader.size p.chunks stop ∧
      stop ≤ d.length ∧ Ends d stop p.lengthError p.trailing := by
  obtain ⟨header, read⟩ := CommonHeader.takes.enough d long
  obtain ⟨p, decoded, -, walked⟩ := Packet.decode_of_read? read
  obtain ⟨stop, tiles, within, ends⟩ :=
    walk_tiles CommonHeader.size (d.drop CommonHeader.size) rfl long
  rw [← walked] at tiles ends
  exact ⟨p, stop, decoded, tiles, within, ends⟩

/-- A DATA chunk of 17 octets, padded, and an ABORT that says it has 9 octets and has 5. -/
def paddedThenCorrupt : Bytes :=
  CommonHeader.write ⟨2905, 2906, 7, 0⟩ ++
    (DataChunk.write ⟨10, 1, 5, 0, [65], false, true, true⟩ ++ [6, 0, 0, 9, 1])

theorem decode_tiles_up_to_corrupt :
    CommonHeader.size ≤ paddedThenCorrupt.length ∧
      ∃ p stop, Packet.decode paddedThenCorrupt = .ok p ∧
        Tiles paddedThenCorrupt CommonHeader.size p.chunks stop ∧
        stop ≤ paddedThenCorrupt.length ∧ Ends paddedThenCorrupt stop p.lengthError p.trailing ∧
        p.chunks.map (fun c => (c.offset, c.stop)) = [(12, 29)] ∧
        p.lengthError = some (.invalidLength 32 9 5) := by
  have long : CommonHeader.size ≤ paddedThenCorrupt.length := by decide
  obtain ⟨p, stop, decoded, tiles, within, ends⟩ := decode_tiles paddedThenCorrupt long
  obtain ⟨q, again, read⟩ := Packet.decode_of_map (d := paddedThenCorrupt)
    (f := fun p => (p.chunks.map fun c => (c.offset, c.stop), p.lengthError))
    (a := ([(12, 29)], some (.invalidLength 32 9 5))) (by decide +kernel)
  rw [decoded] at again
  cases again
  exact ⟨long, p, stop, decoded, tiles, within, ends, Prod.mk.inj read⟩

end SctpTrace.Wire
