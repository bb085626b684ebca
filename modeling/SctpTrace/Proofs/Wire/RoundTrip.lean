import SctpTrace.Proofs.Wire.Written

/-!
Whatever chunks a datagram is written from, reading it gives these chunks back, in their order and
with all their fields (`decode_encode`). The exception is a SACK with blocks that only an NR-SACK
can carry.
-/
namespace SctpTrace.Wire

open Bytes

namespace Chunk

def template? : Chunk → Option Template
  | data c => some c.template
  | interleaved c => some ⟨.iData, c.flags, c.value⟩
  | sack c => some ⟨.sack, 0, c.value false⟩
  | nrSack c => some ⟨.nrSack, 0, c.value true⟩
  | init c => some ⟨.init, 0, c.value⟩
  | initAck c => some ⟨.initAck, 0, c.value⟩
  | _ => none

theorem write?_eq (c : Chunk) : c.write? = c.template?.map Template.write := by
  cases c <;> rfl

structure Encodable (c : Chunk) : Prop where
  fits : ∃ t, c.template? = some t ∧ t.Fits
  /-- A SACK has no place for the blocks of an NR-SACK. -/
  plain : ∀ s, c = .sack s → s.nonRenegableGaps = []

end Chunk

instance (t : Template) : Decidable t.Fits := inferInstanceAs (Decidable (t.value.length ≤ 65531))

/-- A datagram of these chunks; a chunk without a written form is left out. -/
def encode (header : CommonHeader) (chunks : List Chunk) : Bytes :=
  header.write ++ chunks.flatMap fun c => c.write?.getD []

namespace SackChunk

variable {c : SackChunk} {nonRenegable : Bool}

def fields (c : SackChunk) (nonRenegable : Bool) : SackFields :=
  ⟨c.cumulative, c.window, c.gaps.length, if nonRenegable then c.nonRenegableGaps.length else 0,
    c.duplicates.length⟩

def lists (c : SackChunk) (nonRenegable : Bool) : Bytes :=
  c.gaps.flatMap GapBlock.write ++
    ((if nonRenegable then c.nonRenegableGaps.flatMap GapBlock.write else []) ++
      c.duplicates.flatMap write32)

theorem length_items {α : Type} (write : α → Bytes) (four : ∀ a, (write a).length = 4)
    (items : List α) : (items.flatMap write).length = 4 * items.length := by
  induction items with
  | nil => rfl
  | cons a rest ih =>
    rw [List.flatMap_cons, List.length_append, ih, four, List.length_cons]
    omega

theorem toNat_count {α : Type} (items : List α) (few : 4 * items.length ≤ 65531) :
    (UInt16.ofNat items.length).toNat = items.length := by
  rw [UInt16.toNat_ofNat']
  omega

theorem read?_fields (fits : (c.value nonRenegable).length ≤ 65531) :
    SackFields.read? nonRenegable (c.value nonRenegable) =
      some (c.fields nonRenegable, c.lists nonRenegable) := by
  have blocks := length_items GapBlock.write fun _ => rfl
  have words := length_items write32 fun _ => rfl
  cases nonRenegable with
  | false =>
    simp only [value, Bool.false_eq_true, ↓reduceIte, List.length_append, blocks, words] at fits
    simp [SackFields.read?, value, fields, lists, toNat_count c.gaps (by omega),
      toNat_count c.duplicates (by omega)]
  | true =>
    simp only [value, ↓reduceIte, List.length_append, blocks, words] at fits
    simp [SackFields.read?, value, fields, lists, toNat_count c.gaps (by omega),
      toNat_count c.nonRenegableGaps (by omega),
      toNat_count c.duplicates (by omega)]

theorem readLists?_lists (plain : nonRenegable = false → c.nonRenegableGaps = []) :
    readLists? (c.fields nonRenegable) (c.lists nonRenegable) = some c := by
  have gaps := many?_write GapBlock.read?_write
  have duplicates := many?_write word32?_write c.duplicates []
  rw [List.append_nil] at duplicates
  cases nonRenegable with
  | false =>
    obtain ⟨cumulative, window, blocks, kept, repeated⟩ := c
    obtain rfl : kept = [] := plain rfl
    simp [readLists?, fields, lists, gaps, many?, duplicates]
  | true => simp [readLists?, fields, lists, gaps, duplicates]

theorem decode_value (nonRenegable : Bool) (fits : (c.value nonRenegable).length ≤ 65531)
    (plain : nonRenegable = false → c.nonRenegableGaps = []) :
    decode nonRenegable (c.value nonRenegable) = .ok c := by
  rw [decode, read?_fields fits]
  change orTooShort _ _ _ (readLists? (c.fields nonRenegable) (c.lists nonRenegable)) = _
  rw [readLists?_lists plain]
  rfl

end SackChunk

variable {c : Chunk} {t : Template}

theorem Chunk.Encodable.decode_template (encodable : c.Encodable) (made : c.template? = some t)
    (offset : Nat) : RawChunk.decode ⟨offset, t.header, t.value⟩ = .ok c := by
  obtain ⟨u, same, fits⟩ := encodable.fits
  rw [made, Option.some.injEq] at same
  subst same
  cases c with
  | data c =>
    cases made
    exact decode_data c offset
  | interleaved c =>
    cases made
    simp [RawChunk.decode, Chunk.decode, Template.header, InterleavedChunk.decode,
      InterleavedChunk.read?_value, orTooShort, Except.map]
  | sack c =>
    cases made
    have read := SackChunk.decode_value false fits fun _ => encodable.plain c rfl
    simp [RawChunk.decode, Chunk.decode, Template.header, read, Except.map]
  | nrSack c =>
    cases made
    have read := SackChunk.decode_value true fits (fun not => by cases not)
    simp [RawChunk.decode, Chunk.decode, Template.header, read, Except.map]
  | init c =>
    cases made
    simp [RawChunk.decode, Chunk.decode, Template.header, InitChunk.decode,
      InitChunk.read?_value, orTooShort, Except.map]
  | initAck c =>
    cases made
    simp [RawChunk.decode, Chunk.decode, Template.header, InitChunk.decode,
      InitChunk.read?_value, orTooShort, Except.map]
  | abort reflected => cases made
  | shutdownComplete reflected => cases made
  | other code length => cases made

def templates (chunks : List Chunk) : List Template := chunks.filterMap Chunk.template?

theorem flatMap_templates (chunks : List Chunk) :
    (chunks.flatMap fun c => c.write?.getD []) = (templates chunks).flatMap Template.write := by
  induction chunks with
  | nil => rfl
  | cons c rest ih =>
    rw [List.flatMap_cons, ih, Chunk.write?_eq]
    cases made : c.template? with
    | none => simp [templates, made]
    | some t => simp [templates, made]

theorem map_decode_rawChunks {chunks : List Chunk} (encodable : ∀ c ∈ chunks, c.Encodable)
    (offset : Nat) :
    (rawChunks offset (templates chunks)).map RawChunk.decode = chunks.map .ok := by
  induction chunks generalizing offset with
  | nil => rfl
  | cons c rest ih =>
    have here := encodable c List.mem_cons_self
    obtain ⟨t, made, -⟩ := here.fits
    have first : templates (c :: rest) = t :: templates rest := List.filterMap_cons_some made
    rw [first, rawChunks, List.map_cons, List.map_cons, here.decode_template made,
      ih fun c later => encodable c (List.mem_cons_of_mem _ later)]

theorem decode_encode (header : CommonHeader) (chunks : List Chunk)
    (encodable : ∀ c ∈ chunks, c.Encodable) :
    ∃ raws, Packet.decode (encode header chunks) = .ok ⟨header, raws, none, 0⟩ ∧
      raws.length = chunks.length ∧ raws.map RawChunk.decode = chunks.map .ok := by
  have fit : ∀ t ∈ templates chunks, t.Fits := by
    intro t there
    obtain ⟨c, member, made⟩ := List.mem_filterMap.mp there
    obtain ⟨u, same, fits⟩ := (encodable c member).fits
    rw [made, Option.some.injEq] at same
    rwa [same]
  have decoded := map_decode_rawChunks encodable CommonHeader.size
  refine ⟨rawChunks CommonHeader.size (templates chunks), ?_, ?_, decoded⟩
  · rw [encode, flatMap_templates]
    exact decode_write header _ fit
  · simpa using congrArg List.length decoded

def oneOfEach : List Chunk :=
  [.data ⟨10, 1, 5, 0, [65], false, true, true⟩,
    .sack ⟨10, 1500, [⟨2, 3⟩, ⟨5, 5⟩], [], [10]⟩,
    .nrSack ⟨10, 1500, [⟨2, 3⟩], [⟨5, 9⟩], [10]⟩,
    .interleaved ⟨11, 1, 6, 0, [66, 67, 68], true, true, false, true⟩,
    .init ⟨3, 1500, 1, 1, 20⟩, .initAck ⟨4, 1500, 1, 1, 20⟩]

theorem decode_encode_one_of_each :
    (∀ c ∈ oneOfEach, c.Encodable) ∧
      ∃ raws, Packet.decode (encode ⟨2905, 2906, 7, 0⟩ oneOfEach) =
          .ok ⟨⟨2905, 2906, 7, 0⟩, raws, none, 0⟩ ∧
        raws.length = 6 ∧ raws.map RawChunk.decode = oneOfEach.map .ok := by
  have encodable : ∀ c ∈ oneOfEach, c.Encodable := by
    simp only [oneOfEach, List.forall_mem_cons]
    refine ⟨⟨⟨_, rfl, ?_⟩, ?_⟩, ⟨⟨_, rfl, ?_⟩, ?_⟩, ⟨⟨_, rfl, ?_⟩, ?_⟩, ⟨⟨_, rfl, ?_⟩, ?_⟩,
      ⟨⟨_, rfl, ?_⟩, ?_⟩, ⟨⟨_, rfl, ?_⟩, ?_⟩, fun _ absent => absurd absent List.not_mem_nil⟩
    all_goals first | decide | (rintro s ⟨⟩; rfl) | rintro s ⟨⟩
  exact ⟨encodable, decode_encode _ oneOfEach encodable⟩

end SctpTrace.Wire
