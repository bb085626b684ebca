import SctpTrace.Proofs.Wire.Tiling

/-!
A datagram of which only the first octets were captured. The chunks that fit are read as before, and
the first one that does not fit, or the length that was wrong before, is what the walk ends at.
-/
namespace SctpTrace.Wire

def ChunkWalk.StopsAt (w : ChunkWalk) (m offset : Nat) (declared : UInt16) : Prop :=
  if offset + ChunkHeader.size ≤ m then
    w.lengthError = some (.invalidLength offset declared (m - offset)) ∧ w.trailing = 0
  else w.lengthError = none ∧ w.trailing = m - offset

/-- The walk over the first `m` octets of `n`, against the walk over all of them. -/
structure Truncates (m n : Nat) (whole part : ChunkWalk) : Prop where
  chunks : part.chunks = whole.chunks.filter (·.stop ≤ m)
  /-- The first chunk that does not fit. -/
  cut : ∀ c, whole.chunks.find? (m < ·.stop) = some c → part.StopsAt m c.offset c.header.length
  /-- The length that was wrong before is still wrong. -/
  corrupt : ∀ offset declared remaining, (∀ c ∈ whole.chunks, c.stop ≤ m) →
    whole.lengthError = some (.invalidLength offset declared remaining) →
      part.StopsAt m offset declared
  intact : (∀ c ∈ whole.chunks, c.stop ≤ m) → whole.lengthError = none →
    part.lengthError = none ∧ part.trailing = whole.trailing - (n - m)

variable {d : Bytes} {chunks : List RawChunk} {offset stop m : Nat}

theorem Tiles.le_offset (tiles : Tiles d offset chunks stop) :
    ∀ c ∈ chunks, offset ≤ c.offset := by
  induction tiles with
  | nil => simp
  | cons stands pads later ih =>
    intro c here
    rcases List.mem_cons.mp here with rfl | here
    · exact Nat.le_refl _
    · have := ih c here
      simp only [RawChunk.stop] at this
      omega

theorem Tiles.find?_of_across (tiles : Tiles d offset chunks stop) {c : RawChunk}
    (here : c ∈ chunks) (before : c.offset ≤ m) (beyond : m < c.stop) :
    chunks.find? (m < ·.stop) = some c := by
  induction tiles with
  | nil => cases here
  | @cons first padding _ rest stands pads later ih =>
    by_cases fits : m < first.stop
    · rw [List.find?_cons_of_pos (by simpa using fits)]
      rcases List.mem_cons.mp here with rfl | here
      · rfl
      · have := later.le_offset c here
        omega
    · rw [List.find?_cons_of_neg (by simpa using fits)]
      rcases List.mem_cons.mp here with rfl | here
      · exact absurd beyond fits
      · exact ih here

theorem walk_stopsAt {header : ChunkHeader} (within : m ≤ d.length)
    (front : ChunkHeader.front? (d.drop offset) = some header)
    (wrong : header.length.toNat < ChunkHeader.size ∨ m < offset + header.length.toNat) :
    (walk offset ((d.take m).drop offset)).chunks = [] ∧
      (walk offset ((d.take m).drop offset)).StopsAt m offset header.length := by
  have length : ((d.take m).drop offset).length = m - offset := by
    rw [List.length_drop, List.length_take_of_le within]
  by_cases room : offset + ChunkHeader.size ≤ m
  · have bad : frontChunk ((d.take m).drop offset) = .badLength header.length := by
      rw [frontChunk_eq_of_front, List.drop_take, ChunkHeader.front?_take front (by omega),
        ← List.drop_take, length]
      simp only
      rw [if_pos (by omega)]
    rw [walk_of_badLength bad, length]
    exact ⟨rfl, by rw [ChunkWalk.StopsAt, if_pos room]; exact ⟨rfl, rfl⟩⟩
  · have absent : frontChunk ((d.take m).drop offset) = .absent := by
      rw [frontChunk_eq_absent_iff, length, ChunkHeader.size]
      rw [ChunkHeader.size] at room
      omega
    rw [walk_of_absent absent, length]
    exact ⟨rfl, by rw [ChunkWalk.StopsAt, if_neg room]; exact ⟨rfl, rfl⟩⟩

theorem walk_of_beyond (beyond : m ≤ offset) :
    walk offset ((d.take m).drop offset) = ⟨[], none, 0⟩ := by
  have nothing : (d.take m).drop offset = [] := by
    rw [List.drop_eq_nil_iff, List.length_take]
    omega
  rw [nothing]
  exact walk_of_absent rfl

/-- A chunk that fits before `m` is read as before, with the padding that is left. -/
theorem frontChunk_of_fits {c : RawChunk} (within : m ≤ d.length) (stands : c.Stands d)
    (fits : c.stop ≤ m) :
    let left := min (paddingLength c.header.length.toNat) (m - c.stop)
    frontChunk ((d.take m).drop c.offset) =
      .found ⟨c.header, c.value, left, (d.take m).drop (c.stop + left)⟩ := by
  intro left
  have length : ((d.take m).drop c.offset).length = m - c.offset := by
    rw [List.length_drop, List.length_take_of_le within]
  have long := stands.long
  have extent : c.stop = c.offset + c.header.length.toNat := rfl
  have front : ChunkHeader.front? ((d.take m).drop c.offset) = some c.header := by
    rw [List.drop_take]
    exact ChunkHeader.front?_take stands.header (by omega)
  have value : (((d.take m).drop c.offset).drop ChunkHeader.size).take
      (c.header.length.toNat - ChunkHeader.size) = c.value := by
    rw [stands.value, List.drop_drop, List.drop_take, List.take_take, Nat.min_eq_left (by omega)]
  have rest : ((d.take m).drop c.offset).drop
      (c.header.length.toNat + paddingLength c.header.length.toNat) =
        (d.take m).drop (c.stop + left) := by
    rw [← drop_min, List.drop_drop, length, extent]
    congr 1
    omega
  rw [frontChunk_eq_of_front, front]
  simp only
  rw [if_neg (by omega), value, rest, length,
    show m - c.offset - c.header.length.toNat = m - c.stop by omega]

theorem walk_behind_padding {c : RawChunk} {padding : Nat} (within : m ≤ d.length)
    (pads : c.Pads d padding) :
    let left := min (paddingLength c.header.length.toNat) (m - c.stop)
    walk (c.stop + left) ((d.take m).drop (c.stop + left)) =
      walk (c.stop + padding) ((d.take m).drop (c.stop + padding)) := by
  intro left
  by_cases same : left = padding
  · rw [same]
  · have few := pads.few
    have full := pads.full
    have most : paddingLength c.header.length.toNat < 4 ∧
        (c.header.length.toNat + paddingLength c.header.length.toNat) % 4 = 0 := by
      unfold paddingLength
      omega
    rw [walk_of_beyond (by omega), walk_of_beyond (by omega)]

theorem walk_of_fits {c : RawChunk} {padding : Nat} (within : m ≤ d.length) (stands : c.Stands d)
    (pads : c.Pads d padding) (fits : c.stop ≤ m) :
    walk c.offset ((d.take m).drop c.offset) =
      { walk (c.stop + padding) ((d.take m).drop (c.stop + padding)) with
        chunks := c :: (walk (c.stop + padding) ((d.take m).drop (c.stop + padding))).chunks } := by
  rw [walk_of_found (frontChunk_of_fits within stands fits), ← walk_behind_padding within pads]
  rfl

theorem filter_eq_nil_of_cut {c : RawChunk} {rest : List RawChunk} {padding : Nat}
    (cut : m < c.stop) (later : Tiles d (c.stop + padding) rest stop) :
    (c :: rest).filter (·.stop ≤ m) = [] := by
  rw [List.filter_eq_nil_iff]
  intro b here
  rw [decide_eq_true_eq, Nat.not_le]
  rcases List.mem_cons.mp here with rfl | here
  · exact cut
  · have := later.le_offset b here
    simp only [RawChunk.stop] at this cut ⊢
    omega

theorem truncates_of_tiles {error : Option WireError} {trailing : Nat} (within : m ≤ d.length)
    (tiles : Tiles d offset chunks stop) (ends : Ends d stop error trailing)
    (inside : stop ≤ d.length) :
    Truncates m d.length ⟨chunks, error, trailing⟩ (walk offset ((d.take m).drop offset)) := by
  -- Of the walk over all octets only its tiles are needed, so that one walk is followed.
  induction tiles with
  | nil stop =>
    cases ends with
    | @badLength header front room bad =>
      obtain ⟨none, stops⟩ := walk_stopsAt within front (by omega)
      exact ⟨none, by simp, fun _ _ _ _ same => by cases same; exact stops, by simp⟩
    | tooFew few =>
      have absent : frontChunk ((d.take m).drop stop) = .absent := by
        rw [frontChunk_eq_absent_iff, List.length_drop, List.length_take_of_le within]
        omega
      rw [walk_of_absent absent, List.length_drop, List.length_take_of_le within]
      exact ⟨rfl, by simp, by simp, fun _ _ => ⟨rfl, by dsimp only; omega⟩⟩
  | @cons c padding stop rest stands pads later ih =>
    by_cases fits : c.stop ≤ m
    · rw [walk_of_fits within stands pads fits]
      obtain ⟨chunks, cut, corrupt, intact⟩ := ih ends inside
      constructor
      · rw [List.filter_cons_of_pos (by simpa using fits), ← chunks]
      · intro b first
        rw [List.find?_cons_of_neg (by simpa using fits)] at first
        exact cut b first
      · intro _ _ _ all wrong
        exact corrupt _ _ _ (List.forall_mem_cons.mp all).2 wrong
      · intro all none
        exact intact (List.forall_mem_cons.mp all).2 none
    · obtain ⟨none, stops⟩ := walk_stopsAt within stands.header (Or.inr (Nat.lt_of_not_le fits))
      have all : ¬ ∀ b ∈ c :: rest, b.stop ≤ m := fun all => fits (all c List.mem_cons_self)
      constructor
      · rw [none, filter_eq_nil_of_cut (Nat.lt_of_not_le fits) later]
      · intro b first
        rw [List.find?_cons_of_pos (by simpa using fits)] at first
        cases first
        exact stops
      · exact fun _ _ _ fit => absurd fit all
      · exact fun fit => absurd fit all

/-- The first octets of a datagram are read as the datagram is, up to the first chunk that does not
fit. A chunk that is cut is reported with the octets that are left of it. -/
theorem decode_of_prefix {d p : Bytes} (cut : p <+: d) (long : CommonHeader.size ≤ p.length) :
    ∃ whole part, Packet.decode d = .ok whole ∧ Packet.decode p = .ok part ∧
      part.header = whole.header ∧ Truncates p.length d.length whole.walked part.walked ∧
      ∀ c ∈ whole.chunks, c.offset ≤ p.length → p.length < c.stop →
        part.walked.StopsAt p.length c.offset c.header.length := by
  obtain ⟨whole, stop, decoded, tiles, inside, ends⟩ :=
    decode_tiles d (Nat.le_trans long cut.length_le)
  obtain ⟨header, read⟩ := CommonHeader.takes.enough p long
  obtain ⟨part, decodedPart, own, walked⟩ := Packet.decode_of_read? read
  have same : part.header = whole.header := by
    obtain ⟨later, rfl⟩ := cut
    obtain ⟨q, again, other, -⟩ :=
      Packet.decode_of_read? (CommonHeader.extends_read? read later)
    rw [decoded] at again
    cases again
    rw [own, other]
  have truncates : Truncates p.length d.length whole.walked part.walked := by
    have taken := truncates_of_tiles cut.length_le tiles ends inside
    rwa [← List.prefix_iff_eq_take.mp cut, ← walked] at taken
  refine ⟨whole, part, decoded, decodedPart, same, truncates, ?_⟩
  intro c here before beyond
  exact truncates.cut c (tiles.find?_of_across here before beyond)

theorem decode_of_prefix_inside_data :
    paddedThenCorrupt.take 20 <+: paddedThenCorrupt ∧
      CommonHeader.size ≤ (paddedThenCorrupt.take 20).length ∧
        ∃ part, Packet.decode (paddedThenCorrupt.take 20) = .ok part ∧ part.chunks = [] ∧
          part.lengthError = some (.invalidLength 12 17 8) ∧ part.trailing = 0 := by
  have cut : paddedThenCorrupt.take 20 <+: paddedThenCorrupt := List.take_prefix 20 _
  have long : CommonHeader.size ≤ (paddedThenCorrupt.take 20).length := by decide
  obtain ⟨whole, part, decoded, decodedPart, -, truncates, -⟩ := decode_of_prefix cut long
  obtain ⟨again, decodedAgain, read⟩ := Packet.decode_of_map (d := paddedThenCorrupt)
    (f := (·.walked.chunks))
    (a := [⟨12, ⟨0, 3, 17⟩, [0, 0, 0, 10, 0, 1, 0, 5, 0, 0, 0, 0, 65]⟩]) (by decide +kernel)
  rw [decoded] at decodedAgain
  cases decodedAgain
  have none := truncates.chunks
  rw [read] at none
  obtain ⟨error, trailing⟩ := truncates.cut _ (by rw [read]; rfl)
  exact ⟨cut, long, part, decodedPart, none, error, trailing⟩

end SctpTrace.Wire
