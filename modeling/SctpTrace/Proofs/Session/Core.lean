import SctpTrace.Proofs.Isolation.Run
import SctpTrace.Proofs.Session.Analyses
import SctpTrace.Proofs.Wire.Readers

/-!
The datagrams of a run that a session learns from, its core. The others are revisits of an analyzed
frame and datagrams that end within the common header. They answer from memory or with an error, and
all that is left of them is a mark on the frames that were visited again (`run_amounts_to_core`).
-/
namespace SctpTrace.Session

inductive Fate where
  | analyzed
  /-- An earlier datagram of its frame was analyzed. -/
  | revisit
  /-- None was, and the datagram ends within the common header. -/
  | tooShort
  deriving DecidableEq, Repr

def fate (seen : List FrameNumber) (d : Datagram) : Fate :=
  if d.frame ∈ seen then .revisit
  else if d.data.length < Wire.CommonHeader.size then .tooShort
  else .analyzed

def seenWith (seen : List FrameNumber) (d : Datagram) : List FrameNumber :=
  match fate seen d with
  | .analyzed => d.frame :: seen
  | _ => seen

def fates : List FrameNumber → List Datagram → List Fate
  | _, [] => []
  | seen, d :: rest => fate seen d :: fates (seenWith seen d) rest

def ofFate {α : Type} (wanted : Fate) (run : List Fate) (items : List α) : List α :=
  ((run.zip items).filter fun x => x.1 = wanted).map (·.2)

def core (run : List Datagram) : List Datagram := ofFate .analyzed (fates [] run) run

def revisited (run : List Datagram) : List FrameNumber :=
  (ofFate .revisit (fates [] run) run).map (·.frame)

def Remembered.marked (again : List FrameNumber) (frame : FrameNumber) (r : Remembered) :
    Remembered :=
  { r with replayed := r.replayed || again.contains frame }

def markRevisited (s : Session) (again : List FrameNumber) : Session :=
  { s with frames := s.frames.map fun e => (e.1, e.2.marked again e.1) }

section
variable {α : Type} {wanted here : Fate} {later : List Fate} {item : α} {items : List α}

theorem ofFate_cons :
    ofFate wanted (here :: later) (item :: items) =
      if here = wanted then item :: ofFate wanted later items else ofFate wanted later items := by
  by_cases same : here = wanted <;> simp [ofFate, same]

end

variable {s t : Session} {d : Datagram} {seen again : List FrameNumber} {run : List Datagram}

/-- The frames in `seen` are those that the session has analyzed. -/
structure Tracks (seen : List FrameNumber) (s : Session) : Prop where
  distinct : s.frames.keys.Nodup
  known : ∀ frame, frame ∈ seen ↔ (Keyed.get? frame s.frames).isSome = true

theorem Tracks.unseen (unseen : s.frames = []) : Tracks [] s := by
  refine ⟨?_, ?_⟩
  · rw [unseen]
    exact List.nodup_nil
  · intro frame
    simp [unseen]

theorem Tracks.fate_repeated (tracks : Tracks seen s) {entry : Remembered}
    (known : Keyed.get? d.frame s.frames = some entry) : fate seen d = .revisit := by
  have member : d.frame ∈ seen := by
    rw [tracks.known, known]
    rfl
  rw [fate, if_pos member]

theorem Tracks.notMem (tracks : Tracks seen s) (new : Keyed.get? d.frame s.frames = none) :
    d.frame ∉ seen := by
  rw [tracks.known, new]
  exact Bool.false_ne_true

theorem Tracks.fate_refused (tracks : Tracks seen s) {e : Wire.WireError}
    (new : Keyed.get? d.frame s.frames = none) (undecoded : Wire.Packet.decode d.data = .error e) :
    fate seen d = .tooShort := by
  rw [fate, if_neg (tracks.notMem new), if_pos (Wire.Packet.decode_eq_error_iff.mp undecoded).1]

theorem Tracks.fate_taken (tracks : Tracks seen s) {p : Wire.Packet}
    (new : Keyed.get? d.frame s.frames = none) (decoded : Wire.Packet.decode d.data = .ok p) :
    fate seen d = .analyzed := by
  have long : ¬ d.data.length < Wire.CommonHeader.size := by
    intro short
    rw [Wire.Packet.decode_eq_error_iff.mpr ⟨short, rfl⟩] at decoded
    cases decoded
  rw [fate, if_neg (tracks.notMem new), if_neg long]

theorem Tracks.visit (tracks : Tracks seen s) (d : Datagram) :
    Tracks (seenWith seen d) (s.visit d).1 := by
  have visited := visit_cases s d
  generalize s.visit d = outcome at visited ⊢
  cases visited with
  | repeated entry known =>
    simp only [seenWith, tracks.fate_repeated known]
    refine ⟨Keyed.nodup_keys_put tracks.distinct, fun frame => ?_⟩
    rw [Keyed.get?_put]
    split
    · rename_i same
      rw [← same, tracks.known, known]
      exact iff_of_true rfl rfl
    · exact tracks.known frame
  | refused e new undecoded =>
    simp only [seenWith, tracks.fate_refused new undecoded]
    exact tracks
  | taken p new decoded =>
    simp only [seenWith, tracks.fate_taken new decoded]
    refine ⟨Keyed.nodup_keys_put tracks.distinct, fun frame => ?_⟩
    rw [(take_eq d p).2.2.2, Keyed.get?_put, List.mem_cons, tracks.known]
    split
    · rename_i same
      exact iff_of_true (Or.inl same.symm) rfl
    · rename_i other
      exact or_iff_right (Ne.symm other)

/- A marked session does what the session itself does. -/

theorem markRevisited_nil : s.markRevisited [] = s := by
  simp [markRevisited, Remembered.marked]

theorem get?_markRevisited (s : Session) (again : List FrameNumber) (frame : FrameNumber) :
    Keyed.get? frame (s.markRevisited again).frames =
      (Keyed.get? frame s.frames).map (·.marked again frame) := by
  simp only [markRevisited]
  induction s.frames with
  | nil => rfl
  | cons first rest ih =>
    simp only [List.map_cons, Keyed.get?]
    split
    · rename_i same
      rw [same]
      rfl
    · exact ih

theorem visit_repeated_markRevisited {entry : Remembered} (distinct : s.frames.keys.Nodup)
    (known : Keyed.get? d.frame s.frames = some entry) :
    (s.markRevisited again).visit d = (s.markRevisited (again ++ [d.frame]), .ok entry.facts) := by
  have found := get?_markRevisited s again d.frame
  rw [known, Option.map_some] at found
  have put : Keyed.put d.frame ⟨entry.facts, true⟩ (s.markRevisited again).frames =
      (s.markRevisited (again ++ [d.frame])).frames := by
    refine Keyed.put_map (f := fun k a => a.marked again k)
      (g := fun k a => a.marked (again ++ [d.frame]) k) distinct known ?_ fun k a other => ?_
    · simp [Remembered.marked]
    · simp [Remembered.marked, other]
  rw [visit, found]
  exact congrArg (fun frames => (Session.mk s.config s.associations s.tables frames s.tally,
    Except.ok entry.facts)) put

/-- The analysis of a packet does not read the analyses that the session holds. -/
theorem take_with_frames (frames : Keyed FrameNumber Remembered) (d : Datagram) (p : Wire.Packet) :
    { s with frames := frames }.take d p =
      ({ (s.take d p).1 with frames := Keyed.put d.frame ⟨(s.take d p).2, false⟩ frames },
        (s.take d p).2) := rfl

theorem visit_taken_markRevisited {p : Wire.Packet} (new : Keyed.get? d.frame s.frames = none)
    (decoded : Wire.Packet.decode d.data = .ok p) (unmarked : d.frame ∉ again) :
    (s.markRevisited again).visit d = ((s.take d p).1.markRevisited again, .ok (s.take d p).2) := by
  have unseen := get?_markRevisited s again d.frame
  rw [new, Option.map_none] at unseen
  have put : Keyed.put d.frame ⟨(s.take d p).2, false⟩ (s.markRevisited again).frames =
      ((s.take d p).1.markRevisited again).frames := by
    rw [Keyed.put_of_get?_eq_none unseen, markRevisited, markRevisited, (take_eq d p).2.2.2,
      Keyed.put_of_get?_eq_none new]
    simp [Remembered.marked, unmarked]
  have same := take_with_frames (s := s) (s.markRevisited again).frames d p
  rw [put] at same
  rw [visit, unseen, decoded]
  exact congrArg (fun taken : Session × PacketFacts => (taken.1, Except.ok taken.2)) same

theorem visit_refused_markRevisited {e : Wire.WireError}
    (new : Keyed.get? d.frame s.frames = none) (undecoded : Wire.Packet.decode d.data = .error e) :
    (s.markRevisited again).visit d = (s.markRevisited again, .error e) := by
  have unseen := get?_markRevisited s again d.frame
  rw [new, Option.map_none] at unseen
  rw [visit, unseen, undecoded]

/-- A run on a marked session answers its core as the core alone does, and ends as it does but for
the marks. -/
theorem visitAll_markRevisited (again : List FrameNumber) (tracks : Tracks seen s)
    (within : ∀ frame ∈ again, frame ∈ seen) (run : List Datagram) :
    ofFate .analyzed (fates seen run) ((s.markRevisited again).visitAll run).2 =
        (s.visitAll (ofFate .analyzed (fates seen run) run)).2 ∧
      ((s.markRevisited again).visitAll run).1 =
        (s.visitAll (ofFate .analyzed (fates seen run) run)).1.markRevisited
          (again ++ (ofFate .revisit (fates seen run) run).map (·.frame)) := by
  induction run generalizing s seen again with
  | nil => exact ⟨rfl, congrArg s.markRevisited (List.append_nil again).symm⟩
  | cons d rest ih =>
    have next := tracks.visit d
    have visited := visit_cases s d
    generalize same : s.visit d = outcome at visited
    simp only [fates, ofFate_cons, visitAll_cons]
    cases visited with
    | repeated entry known =>
      have fate := tracks.fate_repeated known
      have member : d.frame ∈ seen := by
        rw [tracks.known, known]
        rfl
      have later := ih (again ++ [d.frame]) tracks (by
        intro frame there
        rcases List.mem_append.mp there with old | here
        · exact within frame old
        · rwa [List.mem_singleton.mp here])
      rw [visit_repeated_markRevisited tracks.distinct known]
      simp only [fate, seenWith, reduceCtorEq, ↓reduceIte, List.map_cons]
      rwa [List.append_assoc, List.singleton_append] at later
    | refused e new undecoded =>
      have fate := tracks.fate_refused new undecoded
      rw [visit_refused_markRevisited new undecoded]
      simp only [fate, seenWith, reduceCtorEq, ↓reduceIte]
      exact ih again tracks within
    | taken p new decoded =>
      have fate := tracks.fate_taken new decoded
      have unmarked : d.frame ∉ again := fun there => tracks.notMem new (within _ there)
      rw [visit_taken_markRevisited new decoded unmarked]
      simp only [fate, seenWith, reduceCtorEq, ↓reduceIte, visitAll_cons, same, List.cons.injEq,
        true_and] at next ⊢
      exact ih again next fun frame there => List.mem_cons_of_mem _ (within frame there)

/- Datagram by datagram. -/

theorem Tracks.answered (tracks : Tracks seen s) {i : Nat} (place : run[i]? = some d) :
    ∃ earlier, Tracks earlier (s.visitAll (run.take i)).1 ∧
      (fates seen run)[i]? = some (fate earlier d) ∧
      (s.visitAll run).2[i]? = some ((s.visitAll (run.take i)).1.visit d).2 ∧
      (s.visitAll (run.take (i + 1))).1 = ((s.visitAll (run.take i)).1.visit d).1 := by
  induction run generalizing s seen i with
  | nil => cases place
  | cons first rest ih =>
    cases i with
    | zero =>
      cases place
      exact ⟨seen, tracks, rfl, rfl, rfl⟩
    | succ i =>
      obtain ⟨earlier, later⟩ := ih (tracks.visit first) place
      exact ⟨earlier, later⟩

theorem Tracks.revisit (tracks : Tracks seen s) {i : Nat} (place : run[i]? = some d)
    (again : (fates seen run)[i]? = some .revisit) :
    (∃ entry, Keyed.get? d.frame s.frames = some entry ∧
        (s.visitAll run).2[i]? = some (.ok entry.facts)) ∨
      ∃ j < i, ∃ first, run[j]? = some first ∧ (fates seen run)[j]? = some .analyzed ∧
        first.frame = d.frame ∧ (s.visitAll run).2[i]? = (s.visitAll run).2[j]? := by
  induction run generalizing s seen i with
  | nil => cases place
  | cons first rest ih =>
    have visited := visit_cases s first
    generalize same : s.visit first = outcome at visited
    cases i with
    | zero =>
      simp only [List.getElem?_cons_zero, Option.some.injEq] at place
      subst place
      simp only [fates, List.getElem?_cons_zero, Option.some.injEq] at again
      simp only [visitAll_cons, same]
      cases visited with
      | repeated entry known => exact Or.inl ⟨entry, known, rfl⟩
      | refused e new undecoded =>
        rw [tracks.fate_refused new undecoded] at again
        cases again
      | taken p new decoded =>
        rw [tracks.fate_taken new decoded] at again
        cases again
    | succ i =>
      -- The earlier pass is one that `s` knew, the first datagram, or one among the rest.
      rcases ih (tracks.visit first) place again with ⟨entry, known, told⟩ | ⟨j, before, e, later⟩
      · simp only [visitAll_cons, List.getElem?_cons_succ, same] at known told ⊢
        cases visited with
        | repeated earlier remembered =>
          rw [Keyed.get?_put] at known
          split at known
          · rename_i here
            cases known
            exact Or.inl ⟨earlier, here ▸ remembered, told⟩
          · exact Or.inl ⟨entry, known, told⟩
        | refused e new undecoded => exact Or.inl ⟨entry, known, told⟩
        | taken p new decoded =>
          rw [(take_eq first p).2.2.2, Keyed.get?_put] at known
          split at known
          · rename_i here
            cases known
            refine Or.inr ⟨0, i.succ_pos, first, rfl, ?_, here, told⟩
            exact congrArg some (tracks.fate_taken new decoded)
          · exact Or.inl ⟨entry, known, told⟩
      · exact Or.inr ⟨j + 1, Nat.succ_lt_succ before, e, later⟩

/-- What a run comes to on a session that has analyzed nothing yet. -/
structure Amounts (s : Session) (run : List Datagram) : Prop where
  /-- The core is answered as if it were all. -/
  answers : ofFate .analyzed (fates [] run) (s.visitAll run).2 = (s.visitAll (core run)).2
  /-- So are the associations, the halves, the fragments, the analyses and the counts. -/
  session : (s.visitAll run).1 = (s.visitAll (core run)).1.markRevisited (revisited run)
  analyzed : ∀ (i : Nat) (d : Datagram), run[i]? = some d → (fates [] run)[i]? = some .analyzed →
    ∃ p, Wire.Packet.decode d.data = .ok p ∧
      (s.visitAll run).2[i]? = some (.ok ((s.visitAll (run.take i)).1.take d p).2)
  revisit : ∀ (i : Nat) (d : Datagram), run[i]? = some d → (fates [] run)[i]? = some .revisit →
    ∃ j < i, ∃ first, run[j]? = some first ∧ (fates [] run)[j]? = some .analyzed ∧
      first.frame = d.frame ∧ (s.visitAll run).2[i]? = (s.visitAll run).2[j]?
  tooShort : ∀ (i : Nat) (d : Datagram), run[i]? = some d → (fates [] run)[i]? = some .tooShort →
    (s.visitAll run).2[i]? = some (.error (.truncatedHeader d.data.length)) ∧
      (s.visitAll (run.take (i + 1))).1 = (s.visitAll (run.take i)).1 ∧
      (s.visitAll (run.take (i + 1))).1.frameStatus d.frame = .notSeen

theorem run_amounts_to_core (fresh : s.Fresh) (run : List Datagram) : s.Amounts run := by
  have tracks := Tracks.unseen fresh.unseen.1
  have whole := visitAll_markRevisited [] tracks
    (fun _ absent => absurd absent List.not_mem_nil) run
  rw [markRevisited_nil] at whole
  refine ⟨whole.1, whole.2, ?_, ?_, ?_⟩
  · intro i d place analyzed
    obtain ⟨earlier, known, isFate, answer, -⟩ := tracks.answered place
    rw [analyzed, Option.some.injEq] at isFate
    rw [answer]
    have visited := visit_cases (s.visitAll (run.take i)).1 d
    generalize (s.visitAll (run.take i)).1.visit d = outcome at visited ⊢
    cases visited with
    | repeated entry remembered =>
      rw [known.fate_repeated remembered] at isFate
      cases isFate
    | refused e new undecoded =>
      rw [known.fate_refused new undecoded] at isFate
      cases isFate
    | taken p new decoded => exact ⟨p, decoded, rfl⟩
  · intro i d place again
    rcases tracks.revisit place again with ⟨entry, known, -⟩ | earlier
    · rw [fresh.unseen.1] at known
      cases known
    · exact earlier
  · intro i d place short
    obtain ⟨earlier, known, isFate, answer, after⟩ := tracks.answered place
    rw [short, Option.some.injEq] at isFate
    rw [answer, after]
    have visited := visit_cases (s.visitAll (run.take i)).1 d
    generalize (s.visitAll (run.take i)).1.visit d = outcome at visited ⊢
    cases visited with
    | repeated entry remembered =>
      rw [known.fate_repeated remembered] at isFate
      cases isFate
    | refused e new undecoded =>
      rw [(Wire.Packet.decode_eq_error_iff.mp undecoded).2, frameStatus, new]
      exact ⟨rfl, rfl, rfl⟩
    | taken p new decoded =>
      rw [known.fate_taken new decoded] at isFate
      cases isFate

/-- Frame 2 is cut off at first; frames 1 and 2 come again, one without any octet. -/
def cutAtFirst : List Datagram :=
  let sent (tsn : UInt32) (octet : UInt8) :=
    Wire.DataChunk.write ⟨tsn, 1, 5, 0, [octet], false, true, true⟩
  let good (frame : FrameNumber) (tsn : UInt32) (octet : UInt8) :=
    between frame 2905 2906 7 (sent tsn octet)
  [good 1 10 65, { good 2 11 66 with data := [11, 89, 11] }, good 2 11 66,
    { good 1 10 65 with data := [] }, good 2 12 67]

theorem run_amounts_to_core_after_a_cut :
    (start {}).Fresh ∧
      fates [] cutAtFirst = [.analyzed, .tooShort, .analyzed, .revisit, .revisit] ∧
      revisited cutAtFirst = [1, 2] ∧ (start {}).Amounts cutAtFirst := by
  have fresh : (start {}).Fresh := Or.inl ⟨{}, rfl⟩
  exact ⟨fresh, by decide, by decide, run_amounts_to_core fresh cutAtFirst⟩

end SctpTrace.Session
