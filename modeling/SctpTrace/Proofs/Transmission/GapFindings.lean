import Mathlib.Data.Finset.Card
import Mathlib.Order.Interval.Finset.Nat
import SctpTrace.Proofs.Guarded.Tables

/-!
What is reported of the gap blocks of a SACK. A list has no issue exactly if its blocks are in order
and apart (`Clean`), although each block is compared with one earlier block only. The count of
gap-acked TSNs takes overlapping blocks more than once: it is never below the number of the TSNs that
they name, so that no SACK that names too many passes unreported (`gap_findings`).
-/
namespace SctpTrace.Transmission

open Wire

def blocksOf (c : SackChunk) (nonRenegable : Bool) : List GapBlock :=
  if nonRenegable then c.nonRenegableGaps else c.gaps

/-- No block ends before it starts, and each starts behind the ends of all earlier ones. -/
structure Clean (blocks : List GapBlock) : Prop where
  valid : ∀ b ∈ blocks, b.start ≤ b.stop
  apart : blocks.Pairwise fun earlier b => earlier.stop < b.start

/-- The offsets that the valid blocks name. A malformed block has none between its ends. -/
def offsets : List GapBlock → Finset Nat
  | [] => ∅
  | b :: rest => Finset.Icc b.start.toNat b.stop.toNat ∪ offsets rest

def namedTsns (cumulative : UInt32) (blocks : List GapBlock) : Finset UInt32 :=
  (offsets blocks).image (Serial.forward cumulative)

def SackFacts.issuesIn (facts : SackFacts) (nonRenegable : Bool) : List GapIssue :=
  facts.issues.filter fun issue => issue.nonRenegable == nonRenegable

variable {blocks : List GapBlock} {nonRenegable : Bool} {index : Nat} {previous : Option UInt16}

/- The issues of one list. -/

theorem nonRenegable_of_mem_issues {issue : GapIssue}
    (there : issue ∈ gapIssuesFrom nonRenegable index previous blocks) :
    issue.nonRenegable = nonRenegable := by
  induction blocks generalizing index previous with
  | nil => cases there
  | cons b rest ih =>
    simp only [gapIssuesFrom] at there
    grind

theorem clean_cons_iff {b : GapBlock} : Clean (b :: blocks) ↔
    b.start ≤ b.stop ∧ (∀ later ∈ blocks, b.stop < later.start) ∧ Clean blocks := by
  constructor
  · rintro ⟨valid, apart⟩
    obtain ⟨ahead, apart⟩ := List.pairwise_cons.mp apart
    exact ⟨valid b List.mem_cons_self, ahead,
      fun later there => valid later (List.mem_cons_of_mem _ there), apart⟩
  · rintro ⟨valid, ahead, clean⟩
    refine ⟨?_, List.pairwise_cons.mpr ⟨ahead, clean.apart⟩⟩
    intro later there
    rcases List.mem_cons.mp there with rfl | there
    · exact valid
    · exact clean.valid later there

theorem gapIssuesFrom_cons_eq_nil_iff {b : GapBlock} (valid : b.start ≤ b.stop) :
    gapIssuesFrom nonRenegable index previous (b :: blocks) = [] ↔
      (∀ stop ∈ previous, stop < b.start) ∧
        gapIssuesFrom nonRenegable (index + 1) (some b.stop) blocks = [] := by
  simp only [gapIssuesFrom, blockIsValid, valid, decide_true, ↓reduceIte]
  cases previous with
  | none => simp
  | some stop =>
    by_cases behind : stop < b.start
    · have other : ¬ b.start ≤ stop := UInt16.not_le.mpr behind
      simp [behind, other]
    · simp [behind, UInt16.not_lt.mp behind]

/- The end of the valid block before is enough to look at: it lies behind the ends of all earlier
ones. -/
theorem gapIssuesFrom_eq_nil_iff : gapIssuesFrom nonRenegable index previous blocks = [] ↔
    Clean blocks ∧ ∀ stop ∈ previous, ∀ b ∈ blocks, stop < b.start := by
  induction blocks generalizing index previous with
  | nil => simp [gapIssuesFrom, show Clean [] from ⟨by simp, .nil⟩]
  | cons b rest ih =>
    rw [clean_cons_iff]
    by_cases valid : b.start ≤ b.stop
    · rw [gapIssuesFrom_cons_eq_nil_iff valid, ih]
      constructor
      · rintro ⟨first, clean, ahead⟩
        have ahead := ahead b.stop rfl
        refine ⟨⟨valid, ahead, clean⟩, ?_⟩
        intro stop is later there
        rcases List.mem_cons.mp there with rfl | there
        · exact first stop is
        · exact UInt16.lt_trans (UInt16.lt_of_lt_of_le (first stop is) valid) (ahead later there)
      · rintro ⟨⟨-, ahead, clean⟩, first⟩
        refine ⟨fun stop is => first stop is b List.mem_cons_self, clean, ?_⟩
        rintro stop ⟨⟩
        exact ahead
    · simp [gapIssuesFrom, blockIsValid, valid]

/- The count. -/

theorem gapAckedCount_cons (b : GapBlock) : gapAckedCount (b :: blocks) =
    (if blockIsValid b then blockSize b else 0) + gapAckedCount blocks := by
  simp only [gapAckedCount, ← List.sum_eq_foldl, List.filter_cons]
  split
  · rw [List.map_cons, List.sum_cons]
  · rw [Nat.zero_add]

theorem gapAckedCount_le (blocks : List GapBlock) :
    gapAckedCount blocks ≤ 65536 * blocks.length := by
  induction blocks with
  | nil => exact Nat.le_refl 0
  | cons b rest ih =>
    have size : (if blockIsValid b then blockSize b else 0) ≤ 65536 := by
      have bound := b.stop.toNat_lt
      split
      · rw [blockSize]
        omega
      · omega
    rw [gapAckedCount_cons, List.length_cons]
    omega

theorem card_block (b : GapBlock) : (Finset.Icc b.start.toNat b.stop.toNat).card =
    if blockIsValid b then blockSize b else 0 := by
  rw [Nat.card_Icc, blockSize]
  simp only [blockIsValid, decide_eq_true_eq]
  split <;> rename_i valid <;> rw [UInt16.le_iff_toNat_le] at valid <;> omega

theorem card_offsets_le (blocks : List GapBlock) : (offsets blocks).card ≤ gapAckedCount blocks := by
  induction blocks with
  | nil => simp [offsets]
  | cons b rest ih =>
    have union := Finset.card_union_le (Finset.Icc b.start.toNat b.stop.toNat) (offsets rest)
    rw [card_block] at union
    rw [offsets, gapAckedCount_cons]
    omega

theorem mem_offsets_iff {offset : Nat} : offset ∈ offsets blocks ↔
    ∃ b ∈ blocks, b.start.toNat ≤ offset ∧ offset ≤ b.stop.toNat := by
  induction blocks with
  | nil => simp [offsets]
  | cons b rest ih => simp [offsets, ih]

theorem card_offsets_of_clean (clean : Clean blocks) :
    (offsets blocks).card = gapAckedCount blocks := by
  induction blocks with
  | nil => rfl
  | cons b rest ih =>
    obtain ⟨valid, ahead, clean⟩ := clean_cons_iff.mp clean
    have apart : Disjoint (Finset.Icc b.start.toNat b.stop.toNat) (offsets rest) := by
      rw [Finset.disjoint_left]
      intro offset here there
      obtain ⟨later, member, low, -⟩ := mem_offsets_iff.mp there
      have behind := UInt16.lt_iff_toNat_lt.mp (ahead later member)
      have high := (Finset.mem_Icc.mp here).2
      omega
    rw [offsets, Finset.card_union_of_disjoint apart, card_block, ih clean, gapAckedCount_cons]

theorem card_namedTsns (cumulative : UInt32) (blocks : List GapBlock) :
    (namedTsns cumulative blocks).card = (offsets blocks).card := by
  apply Finset.card_image_of_injOn
  intro j hj k hk same
  obtain ⟨b, -, -, hj⟩ := mem_offsets_iff.mp hj
  obtain ⟨b', -, -, hk⟩ := mem_offsets_iff.mp hk
  have hb := b.stop.toNat_lt
  have hb' := b'.stop.toNat_lt
  exact Serial.forward_inj (by omega) (by omega) same

/- The whole SACK. -/

structure GapFindings (limits : AckLimits) (c : SackChunk) (facts : SackFacts) : Prop where
  issues_iff : ∀ list, facts.issuesIn list = [] ↔ Clean (blocksOf c list)
  atLeast : (offsets c.gaps).card ≤ facts.gapAcked
  exact : facts.issuesIn false = [] → facts.gapAcked = (offsets c.gaps).card
  /-- Block after block, the sum stays in 32 bits. -/
  fits : Guarded.gapAckedCount 0 c.gaps = some facts.gapAcked ∧ facts.gapAcked < 4294967296
  warned : limits.gapWarning < (namedTsns c.cumulative c.gaps).card →
    facts.thresholdExceeded = true

variable {c : SackChunk} {limits : AckLimits} {acked : List Acked}

theorem issuesIn_sackFacts (limits : AckLimits) (c : SackChunk) (nonRenegable : Bool)
    (acked : List Acked) (list : Bool) : (sackFacts limits c nonRenegable acked).issuesIn list =
      gapIssuesFrom list 0 none (blocksOf c list) := by
  have own : ∀ blocks, (gapIssuesFrom list 0 none blocks).filter
      (fun issue => issue.nonRenegable == list) = gapIssuesFrom list 0 none blocks := by
    intro blocks
    rw [List.filter_eq_self]
    intro issue there
    simp [nonRenegable_of_mem_issues there]
  have other : ∀ blocks, (gapIssuesFrom (!list) 0 none blocks).filter
      (fun issue => issue.nonRenegable == list) = [] := by
    intro blocks
    rw [List.filter_eq_nil_iff]
    intro issue there
    simp [nonRenegable_of_mem_issues there]
  simp only [SackFacts.issuesIn, sackFacts, gapIssues, List.filter_append]
  cases list with
  | false =>
    have absent := other c.nonRenegableGaps
    rw [Bool.not_false] at absent
    rw [own, absent, List.append_nil]
    rfl
  | true =>
    have absent := other c.gaps
    rw [Bool.not_true] at absent
    rw [own, absent, List.nil_append]
    rfl

theorem gapFindings_sackFacts (few : c.gaps.length < 65536) (nonRenegable : Bool) :
    GapFindings limits c (sackFacts limits c nonRenegable acked) := by
  have clean_iff : ∀ list, (sackFacts limits c nonRenegable acked).issuesIn list = [] ↔
      Clean (blocksOf c list) := by
    intro list
    rw [issuesIn_sackFacts, gapIssuesFrom_eq_nil_iff]
    simp
  have atLeast : (offsets c.gaps).card ≤ gapAckedCount c.gaps := card_offsets_le c.gaps
  have atMost := gapAckedCount_le c.gaps
  refine ⟨clean_iff, atLeast, ?_, ⟨?_, ?_⟩, ?_⟩
  · intro none
    exact (card_offsets_of_clean ((clean_iff false).mp none)).symm
  · exact Guarded.gapAckedCount_eq (by omega)
  · change gapAckedCount c.gaps < 4294967296
    omega
  · intro more
    rw [card_namedTsns] at more
    simp only [sackFacts, decide_eq_true_eq]
    omega

/-- Of every SACK and NR-SACK that is read, with and without a half that it acknowledges. -/
theorem gap_findings {header : ChunkHeader} {value : Bytes} {chunk : Chunk}
    (decoded : Chunk.decode header value = .ok chunk) (is : chunk.sack? = some c) (t : Tracker)
    (acknowledged : Option Nat) (limits : AckLimits) (nonRenegable : Bool) (stamp : Stamp) :
    GapFindings limits c (t.sack acknowledged limits c nonRenegable stamp).2 := by
  have few := Chunk.length_gaps_lt decoded is
  unfold Tracker.sack
  split
  · exact gapFindings_sackFacts few nonRenegable
  · exact gapFindings_sackFacts few nonRenegable

def overlapping : SackChunk := ⟨1, 65535, [⟨2, 3⟩, ⟨9, 4⟩, ⟨3, 5⟩], [], []⟩

theorem gap_findings_of_overlapping :
    Chunk.decode ⟨3, 0, 28⟩ (overlapping.value false) = .ok (.sack overlapping) ∧
      GapFindings ⟨5000, 3⟩ overlapping
        (Tracker.empty.sack none ⟨5000, 3⟩ overlapping false ⟨2, ⟨2, 0⟩⟩).2 := by
  have decoded : Chunk.decode ⟨3, 0, 28⟩ (overlapping.value false) = .ok (.sack overlapping) := by
    rfl
  exact ⟨decoded, gap_findings decoded rfl .empty none ⟨5000, 3⟩ false ⟨2, ⟨2, 0⟩⟩⟩

end SctpTrace.Transmission
