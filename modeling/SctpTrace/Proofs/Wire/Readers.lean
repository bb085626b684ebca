import SctpTrace.Wire.Packet

/-!
How many octets a reader asks for. The readers of the wire format take a fixed number of octets, and
they read whatever these octets are (`Takes`), so that a value can be read exactly if it is long
enough (`Holds`). What follows these octets makes no difference (`Extends`).
-/
namespace SctpTrace.Bytes

variable {α β : Type} {n m k : Nat} {read? : Bytes → Option (α × Bytes)} {bytes rest : Bytes}

/-- The reader takes `n` octets, whatever they are. -/
structure Takes (n : Nat) (read? : Bytes → Option (α × Bytes)) : Prop where
  enough : ∀ bytes, n ≤ bytes.length → ∃ a, read? bytes = some (a, bytes.drop n)
  short : ∀ bytes, bytes.length < n → read? bytes = none

def Extends (read? : Bytes → Option (α × Bytes)) : Prop :=
  ∀ ⦃bytes a rest⦄, read? bytes = some (a, rest) →
    ∀ later, read? (bytes ++ later) = some (a, rest ++ later)

def Holds (n : Nat) (read? : Bytes → Option β) : Prop :=
  ∀ bytes, (read? bytes).isSome = true ↔ n ≤ bytes.length

theorem Takes.eq_none_iff (takes : Takes n read?) : read? bytes = none ↔ bytes.length < n := by
  constructor
  · intro nothing
    refine Nat.lt_of_not_le fun long => ?_
    obtain ⟨a, read⟩ := takes.enough bytes long
    rw [nothing] at read
    cases read
  · exact takes.short bytes

theorem Takes.rest_eq {a : α} (takes : Takes n read?) (read : read? bytes = some (a, rest)) :
    n ≤ bytes.length ∧ rest = bytes.drop n := by
  have long : n ≤ bytes.length := by
    refine Nat.le_of_not_lt fun short => ?_
    rw [takes.short bytes short] at read
    cases read
  obtain ⟨b, same⟩ := takes.enough bytes long
  rw [read] at same
  cases same
  exact ⟨long, rfl⟩

theorem Takes.holds (takes : Takes n read?) : Holds n read? := by
  intro bytes
  rw [Option.isSome_iff_ne_none, Ne, takes.eq_none_iff, Nat.not_lt]

theorem Takes.pure (a : α) : Takes 0 (fun bytes => some (a, bytes)) :=
  ⟨fun _ _ => ⟨a, rfl⟩, fun _ short => absurd short (Nat.not_lt_zero _)⟩

theorem Takes.bind {next? : α × Bytes → Option (β × Bytes)} (first : Takes n read?)
    (next : ∀ a, Takes m (fun rest => next? (a, rest))) (whole : n + m = k) :
    Takes k (fun bytes => read? bytes >>= next?) := by
  subst whole
  refine ⟨?_, ?_⟩
  · intro bytes long
    obtain ⟨a, read⟩ := first.enough bytes (by omega)
    obtain ⟨b, later⟩ := (next a).enough (bytes.drop n) (by rw [List.length_drop]; omega)
    refine ⟨b, ?_⟩
    simp only [read, Option.bind_eq_bind, Option.bind_some, later, List.drop_drop]
  · intro bytes short
    by_cases long : n ≤ bytes.length
    · obtain ⟨a, read⟩ := first.enough bytes long
      simp only [read, Option.bind_eq_bind, Option.bind_some]
      exact (next a).short _ (by rw [List.length_drop]; omega)
    · simp only [first.short bytes (by omega), Option.bind_eq_bind, Option.bind_none]

theorem Takes.many (each : Takes n read?) (count : Nat) :
    Takes (count * n) (many? read? count) := by
  induction count with
  | zero =>
    rw [Nat.zero_mul]
    exact Takes.pure []
  | succ count ih =>
    exact each.bind (fun a => ih.bind (fun items => Takes.pure (a :: items)) rfl)
      (by rw [Nat.succ_mul, Nat.add_comm]; rfl)

theorem length_of_many? {count : Nat} {bytes rest : Bytes} {items : List α}
    (read : many? read? count bytes = some (items, rest)) : items.length = count := by
  induction count generalizing bytes items rest with
  | zero =>
    cases read
    rfl
  | succ count ih =>
    simp only [many?, Option.bind_eq_bind, Option.bind_eq_some_iff] at read
    obtain ⟨⟨a, _⟩, -, ⟨others, _⟩, later, same⟩ := read
    cases same
    rw [List.length_cons, ih later]

theorem Holds.pure (f : Bytes → β) : Holds 0 (fun bytes => some (f bytes)) := by
  intro bytes
  exact iff_of_true rfl bytes.length.zero_le

theorem Holds.bind {next? : α × Bytes → Option β} (first : Takes n read?)
    (next : ∀ a, Holds m (fun rest => next? (a, rest))) (whole : n + m = k) :
    Holds k (fun bytes => read? bytes >>= next?) := by
  subst whole
  intro bytes
  by_cases long : n ≤ bytes.length
  · obtain ⟨a, read⟩ := first.enough bytes long
    simp only [read, Option.bind_eq_bind, Option.bind_some]
    rw [next a, List.length_drop]
    omega
  · simp only [first.short bytes (by omega), Option.bind_eq_bind, Option.bind_none,
      Option.isSome_none, Bool.false_eq_true, false_iff]
    omega

theorem takes_octet? : Takes 1 octet? := by
  refine ⟨?_, ?_⟩
  · rintro (_ | ⟨a, rest⟩) long
    · simp at long
    · exact ⟨a, rfl⟩
  · rintro (_ | ⟨a, rest⟩) short
    · rfl
    · simp at short

theorem takes_word16? : Takes 2 word16? := by
  refine ⟨?_, ?_⟩
  · rintro (_ | ⟨a, _ | ⟨b, rest⟩⟩) long
    · simp at long
    · simp at long
    · exact ⟨_, rfl⟩
  · rintro (_ | ⟨a, _ | ⟨b, rest⟩⟩) short
    · rfl
    · rfl
    · rw [List.length_cons, List.length_cons] at short
      omega

theorem takes_word32? : Takes 4 word32? := by
  refine ⟨?_, ?_⟩
  · rintro (_ | ⟨a, _ | ⟨b, _ | ⟨c, _ | ⟨d, rest⟩⟩⟩⟩) long
    · simp at long
    · simp at long
    · simp at long
    · simp at long
    · exact ⟨_, rfl⟩
  · rintro (_ | ⟨a, _ | ⟨b, _ | ⟨c, _ | ⟨d, rest⟩⟩⟩⟩) short
    · rfl
    · rfl
    · rfl
    · rfl
    · rw [List.length_cons, List.length_cons, List.length_cons, List.length_cons] at short
      omega

theorem Extends.pure (a : α) : Extends (fun bytes => some (a, bytes)) := by
  intro bytes b rest read later
  cases read
  rfl

theorem Extends.bind {next? : α × Bytes → Option (β × Bytes)} (first : Extends read?)
    (next : ∀ a, Extends (fun rest => next? (a, rest))) :
    Extends (fun bytes => read? bytes >>= next?) := by
  intro bytes b rest read later
  simp only [Option.bind_eq_bind, Option.bind_eq_some_iff] at read ⊢
  obtain ⟨⟨a, middle⟩, front, back⟩ := read
  exact ⟨(a, middle ++ later), first front later, next a back later⟩

theorem extends_octet? : Extends octet? := by
  rintro (_ | ⟨a, bytes⟩) octet rest read later
  · cases read
  · cases read
    rfl

theorem extends_word16? : Extends word16? := by
  rintro (_ | ⟨a, _ | ⟨b, bytes⟩⟩) word rest read later
  · cases read
  · cases read
  · cases read
    rfl

theorem extends_word32? : Extends word32? := by
  rintro (_ | ⟨a, _ | ⟨b, _ | ⟨c, _ | ⟨d, bytes⟩⟩⟩⟩) word rest read later
  · cases read
  · cases read
  · cases read
  · cases read
  · cases read
    rfl

theorem cut?_eq {n : Nat} {bytes : Bytes} (long : n ≤ bytes.length) :
    cut? n bytes = some (bytes.take n, bytes.drop n) :=
  cut?_eq_some_iff.mpr ⟨(List.take_append_drop n bytes).symm, List.length_take_of_le long⟩

end SctpTrace.Bytes

namespace SctpTrace.Wire

open Bytes

theorem CommonHeader.takes : Takes CommonHeader.size CommonHeader.read? :=
  takes_word16?.bind (fun _ => takes_word16?.bind (fun _ => takes_word32?.bind (fun _ =>
    takes_word32?.bind (fun _ => Takes.pure _) rfl) rfl) rfl) rfl

theorem Packet.decode_eq_error_iff {bytes : Bytes} {e : WireError} :
    Packet.decode bytes = .error e ↔
      bytes.length < CommonHeader.size ∧ e = .truncatedHeader bytes.length := by
  unfold Packet.decode
  cases read : CommonHeader.read? bytes with
  | none => simp [CommonHeader.takes.eq_none_iff.mp read, eq_comm]
  | some headed =>
    have long : ¬ bytes.length < CommonHeader.size := by
      rw [← CommonHeader.takes.eq_none_iff, read]
      simp
    simp [long]

theorem ChunkHeader.takes : Takes ChunkHeader.size ChunkHeader.read? :=
  takes_octet?.bind (fun _ => takes_octet?.bind (fun _ => takes_word16?.bind (fun _ =>
    Takes.pure _) rfl) rfl) rfl

def ChunkHeader.front? (bytes : Bytes) : Option ChunkHeader := (read? bytes).map (·.1)

theorem ChunkHeader.front?_eq_none_iff {bytes : Bytes} : front? bytes = none ↔ bytes.length < size := by
  rw [front?, Option.map_eq_none_iff, takes.eq_none_iff]

theorem ChunkHeader.size_le_of_front? {bytes : Bytes} {header : ChunkHeader}
    (front : front? bytes = some header) : size ≤ bytes.length := by
  rw [← Nat.not_lt, ← front?_eq_none_iff, front]
  simp

theorem frontChunk_eq_of_front (bytes : Bytes) : frontChunk bytes =
    match ChunkHeader.front? bytes with
    | none => .absent
    | some header =>
      if header.length.toNat < ChunkHeader.size ∨ bytes.length < header.length.toNat then
        .badLength header.length
      else
        .found ⟨header, (bytes.drop ChunkHeader.size).take (header.length.toNat - ChunkHeader.size),
          min (paddingLength header.length.toNat) (bytes.length - header.length.toNat),
          bytes.drop (header.length.toNat + paddingLength header.length.toNat)⟩ := by
  unfold frontChunk ChunkHeader.front?
  cases read : ChunkHeader.read? bytes with
  | none => rfl
  | some headed =>
    obtain ⟨header, afterHeader⟩ := headed
    obtain ⟨long, rfl⟩ := ChunkHeader.takes.rest_eq read
    simp only [Option.map_some]
    by_cases short : header.length.toNat < ChunkHeader.size
    · rw [if_pos short, if_pos (Or.inl short)]
    rw [if_neg short]
    by_cases beyond : bytes.length < header.length.toNat
    · have missing : cut? (header.length.toNat - ChunkHeader.size)
          (bytes.drop ChunkHeader.size) = none := by
        rw [cut?_eq_none_iff, List.length_drop]
        omega
      rw [if_pos (Or.inr beyond), missing]
    · have inside :
          header.length.toNat - ChunkHeader.size ≤ (bytes.drop ChunkHeader.size).length := by
        rw [List.length_drop]
        omega
      rw [if_neg (by omega), cut?_eq inside]
      simp only [List.splitAt_eq, List.length_take, List.length_drop, List.drop_drop,
        Nat.add_sub_of_le (Nat.le_of_not_lt short)]

theorem CommonHeader.extends_read? : Extends CommonHeader.read? :=
  extends_word16?.bind fun _ => extends_word16?.bind fun _ => extends_word32?.bind fun _ =>
    extends_word32?.bind fun _ => Extends.pure _

theorem ChunkHeader.extends_read? : Extends ChunkHeader.read? :=
  extends_octet?.bind fun _ => extends_octet?.bind fun _ => extends_word16?.bind fun _ =>
    Extends.pure _

theorem ChunkHeader.front?_take {bytes : Bytes} {header : ChunkHeader} {n : Nat}
    (front : front? bytes = some header) (room : size ≤ n) :
    front? (bytes.take n) = some header := by
  have long := size_le_of_front? front
  obtain ⟨first, read⟩ := takes.enough (bytes.take n) (by rw [List.length_take]; omega)
  have extended := extends_read? read (bytes.drop n)
  rw [List.take_append_drop] at extended
  rw [front?, extended] at front
  rw [front?, read]
  exact front

theorem GapBlock.takes : Takes 4 GapBlock.read? :=
  takes_word16?.bind (fun _ => takes_word16?.bind (fun _ => Takes.pure _) rfl) rfl

theorem SackFields.takes (nonRenegable : Bool) :
    Takes (SackFields.size nonRenegable) (SackFields.read? nonRenegable) := by
  cases nonRenegable with
  | false =>
    exact takes_word32?.bind (fun _ => takes_word32?.bind (fun _ => takes_word16?.bind (fun _ =>
      takes_word16?.bind (fun _ => Takes.pure _) rfl) rfl) rfl) rfl
  | true =>
    exact takes_word32?.bind (fun _ => takes_word32?.bind (fun _ => takes_word16?.bind (fun _ =>
      takes_word16?.bind (fun _ => takes_word16?.bind (fun _ => takes_word16?.bind (fun _ =>
        Takes.pure _) rfl) rfl) rfl) rfl) rfl) rfl

theorem DataChunk.holds (flags : UInt8) : Holds DataChunk.fixed (DataChunk.read? flags) :=
  Holds.bind takes_word32? (fun _ => Holds.bind takes_word16? (fun _ =>
    Holds.bind takes_word16? (fun _ => Holds.bind takes_word32? (fun _ =>
      Holds.pure _) rfl) rfl) rfl) rfl

theorem InterleavedChunk.holds (flags : UInt8) :
    Holds InterleavedChunk.fixed (InterleavedChunk.read? flags) :=
  Holds.bind takes_word32? (fun _ => Holds.bind takes_word16? (fun _ =>
    Holds.bind takes_word16? (fun _ => Holds.bind takes_word32? (fun _ =>
      Holds.bind takes_word32? (fun _ => Holds.pure _) rfl) rfl) rfl) rfl) rfl

theorem InitChunk.holds : Holds InitChunk.fixed InitChunk.read? :=
  Holds.bind takes_word32? (fun _ => Holds.bind takes_word32? (fun _ =>
    Holds.bind takes_word16? (fun _ => Holds.bind takes_word16? (fun _ =>
      Holds.bind takes_word32? (fun _ => Holds.pure _) rfl) rfl) rfl) rfl) rfl

theorem SackChunk.holds (f : SackFields) :
    Holds (f.gapCount * 4 + (f.nonRenegableCount * 4 + f.duplicateCount * 4))
      (SackChunk.readLists? f) :=
  Holds.bind (GapBlock.takes.many _) (fun _ => Holds.bind (GapBlock.takes.many _) (fun _ =>
    Holds.bind (takes_word32?.many _) (fun _ => Holds.pure _) rfl) rfl) rfl

theorem orTooShort_eq_ok_iff {α : Type} {type : ChunkType} {value : Bytes} {minimum : Nat}
    {read : Option α} {a : α} : orTooShort type value minimum read = .ok a ↔ read = some a := by
  cases read <;> simp [orTooShort]

theorem SackFields.gapCount_lt {nonRenegable : Bool} {value rest : Bytes} {fields : SackFields}
    (read : SackFields.read? nonRenegable value = some (fields, rest)) :
    fields.gapCount < 65536 := by
  cases nonRenegable with
  | false =>
    simp only [SackFields.read?, Option.bind_eq_bind, Option.bind_eq_some_iff,
      Bool.false_eq_true, if_false] at read
    obtain ⟨_, -, _, -, ⟨gapCount, _⟩, -, _, -, same⟩ := read
    cases same
    exact gapCount.toNat_lt
  | true =>
    simp only [SackFields.read?, Option.bind_eq_bind, Option.bind_eq_some_iff, if_true] at read
    obtain ⟨_, -, _, -, ⟨gapCount, _⟩, -, _, -, _, -, _, -, same⟩ := read
    cases same
    exact gapCount.toNat_lt

theorem SackChunk.length_gaps_lt {nonRenegable : Bool} {value : Bytes} {c : SackChunk}
    (decoded : SackChunk.decode nonRenegable value = .ok c) : c.gaps.length < 65536 := by
  unfold SackChunk.decode at decoded
  cases front : SackFields.read? nonRenegable value with
  | none =>
    rw [front] at decoded
    cases decoded
  | some headed =>
    obtain ⟨fields, bytes⟩ := headed
    rw [front] at decoded
    have lists := orTooShort_eq_ok_iff.mp decoded
    simp only [SackChunk.readLists?, Option.bind_eq_bind, Option.bind_eq_some_iff] at lists
    obtain ⟨⟨gaps, _⟩, read, _, -, _, -, same⟩ := lists
    cases same
    rw [length_of_many? read]
    exact SackFields.gapCount_lt front

def Chunk.sack? : Chunk → Option SackChunk
  | sack c => some c
  | nrSack c => some c
  | _ => none

theorem Chunk.length_gaps_lt {header : ChunkHeader} {value : Bytes} {chunk : Chunk}
    {c : SackChunk} (decoded : Chunk.decode header value = .ok chunk)
    (here : chunk.sack? = some c) : c.gaps.length < 65536 := by
  have inside : ∀ {α : Type} {read : Except WireError α} {f : α → Chunk},
      read.map f = .ok chunk → ∃ a, read = .ok a ∧ f a = chunk := by
    intro α read f mapped
    cases read with
    | error e => cases mapped
    | ok a => exact ⟨a, rfl, Except.ok.inj mapped⟩
  unfold Chunk.decode at decoded
  split at decoded
  case h_3 | h_4 =>
    obtain ⟨own, fields, rfl⟩ := inside decoded
    cases here
    exact SackChunk.length_gaps_lt fields
  case h_1 | h_2 | h_5 | h_6 =>
    obtain ⟨own, -, rfl⟩ := inside decoded
    cases here
  all_goals
    cases decoded
    cases here

end SctpTrace.Wire
