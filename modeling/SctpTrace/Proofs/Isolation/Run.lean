import Mathlib.Order.Monotone.Basic
import SctpTrace.Proofs.Isolation.Visit

/-!
What a session answers on some port pairs does not depend on the traffic on other pairs, and neither
does what it keeps about them (`answers_undisturbed`). Only the associations are numbered otherwise,
and they keep their order.
-/
namespace SctpTrace

open Transmission

/- The same data under other numbers of associations, and halves at other places. -/

def Flow.rename (ρ : Nat → Nat) (f : Flow) : Flow := { f with index := ρ f.index }

def Association.rename (ρ : Nat → Nat) (a : Association) : Association :=
  { a with index := ρ a.index }

def Transmission.Half.rename (ρ σ : Nat → Nat) (h : Half) : Half :=
  h.relabel (h.flow.rename ρ) (h.peer.map σ)

namespace Session

def PacketFacts.rename (ρ : Nat → Nat) (p : PacketFacts) : PacketFacts :=
  { p with flow := p.flow.map (Flow.rename ρ) }

def Answer.rename (ρ : Nat → Nat) : Answer → Answer := Except.map (PacketFacts.rename ρ)

def answersTo (wanted : Datagram → Bool) (run : List Datagram) (answers : List Answer) :
    List Answer :=
  ((run.zip answers).filter fun x => wanted x.1).map (·.2)

section
variable {wanted : Datagram → Bool} {d : Datagram} (a : Answer) (run : List Datagram)
  (answers : List Answer)

theorem answersTo_cons_of_pos (here : wanted d = true) :
    answersTo wanted (d :: run) (a :: answers) = a :: answersTo wanted run answers := by
  simp [answersTo, here]

theorem answersTo_cons_of_neg (here : wanted d = false) :
    answersTo wanted (d :: run) (a :: answers) = answersTo wanted run answers := by
  simp [answersTo, here]

end

/-- What the larger session knows about the pairs in `S` is what the smaller one knows. -/
structure Corresponds (S : Set (Sym2 UInt16)) (ρ σ : Nat → Nat) (small big : Session) : Prop where
  associations : ∀ j a, small.associations.associations[j]? = some a →
    a.index = j ∧ a.ports ∈ S ∧ big.associations.associations[ρ j]? = some (a.rename ρ)
  allAssociations : ∀ i b, big.associations.associations[i]? = some b → b.ports ∈ S →
    ∃ j < small.associations.associations.length, ρ j = i
  halves : ∀ j h, small.tables.tracker.half? j = some h →
    h.flow.index < small.associations.associations.length ∧
      big.tables.tracker.half? (σ j) = some (h.rename ρ σ)
  allHalves : ∀ i h b, big.tables.tracker.half? i = some h →
    big.associations.associations[h.flow.index]? = some b → b.ports ∈ S →
      ∃ j < small.tables.tracker.halves.length, σ j = i
  fragments : ∀ key, key.ports ∈ S →
    big.tables.store.fragments? key = small.tables.store.fragments? key

end Session

namespace Isolation

open Session

variable {S : Set (Sym2 UInt16)} {own : FrameNumber → Prop} {places spots : List Nat}
  {small big : Session}

def extend (places : List Nat) (n j : Nat) : Nat := places[j]?.getD (n + j)

theorem extend_of_at {n j i : Nat} (there : At places j i) : extend places n j = i := by
  rw [extend, there]
  rfl

theorem strictMono_extend {n : Nat} (increasing : places.Pairwise (· < ·))
    (below : ∀ i ∈ places, i < n) : StrictMono (extend places n) := by
  intro j j' before
  cases later : places[j']? with
  | none =>
    rw [extend, extend, later, Option.getD_none]
    cases first : places[j]? with
    | none =>
      rw [Option.getD_none]
      omega
    | some i =>
      have := below i (At.mem first)
      rw [Option.getD_some]
      omega
  | some i' =>
    have inside : j < places.length := Nat.lt_trans before (At.lt later)
    have first : At places j places[j] := List.getElem?_eq_getElem inside
    rw [extend_of_at first, extend_of_at later]
    exact at_lt increasing first later before

variable {ρ σ : Nat → Nat}

theorem rename_flow {f g : Flow} (renamed : ∀ j i, At places j i → ρ j = i)
    (same : FlowAt places f g) : g = f.rename ρ := by
  obtain ⟨place, direction⟩ := same
  obtain ⟨i, way⟩ := g
  rw [Flow.rename, renamed _ _ place]
  exact congrArg (Flow.mk i) direction

theorem rename_facts {p q : PacketFacts} (renamed : ∀ j i, At places j i → ρ j = i)
    (same : FactsAt places p q) : q = p.rename ρ := by
  obtain ⟨flow, rest⟩ := same
  rw [rest, PacketFacts.rename]
  generalize p.flow = x, q.flow = y at flow
  cases flow with
  | none => rfl
  | some here => rw [rename_flow renamed here, Option.map_some]

theorem rename_answers {answers answers' : List Answer} (renamed : ∀ j i, At places j i → ρ j = i)
    (same : List.Forall₂ (AnswerAt places) answers answers') :
    answers' = answers.map (Answer.rename ρ) := by
  induction same with
  | nil => rfl
  | cons here later ih =>
    rename_i a b rest rest'
    rw [List.map_cons, ← ih]
    congr 1
    cases a with
    | ok p =>
      cases b with
      | ok q => exact congrArg Except.ok (rename_facts renamed here)
      | error e => cases here
    | error e =>
      cases b with
      | ok q => cases here
      | error e' => exact congrArg Except.error here

theorem rename_half {h h' : Half} (renamed : ∀ j i, At places j i → ρ j = i)
    (moved : ∀ j i, At spots j i → σ j = i) (same : HalfAt places spots h h') :
    h' = h.rename ρ σ := by
  obtain ⟨flow, peer, rest⟩ := same
  have peers : h'.peer = h.peer.map σ := by
    generalize h.peer = x, h'.peer = y at peer
    cases peer with
    | none => rfl
    | some there => rw [Option.map_some, moved _ _ there]
  rw [rest, Half.rename, rename_flow renamed flow, peers]

theorem SessionSim.corresponds (sim : SessionSim S own places spots small big)
    (renamed : ∀ j i, At places j i → ρ j = i) (moved : ∀ j i, At spots j i → σ j = i) :
    Corresponds S ρ σ small big := by
  have members := sim.table.members
  have halves := sim.tables.tracker.members
  refine ⟨?_, ?_, ?_, ?_, sim.tables.store⟩
  · intro j a found
    obtain ⟨i, b, there, inBig, same, claimed⟩ := members.exists_place found
    have numbered := sim.table.numbered i b inBig
    have place := same.1
    rw [numbered] at place
    have index := at_inj members.increasing place there
    have named : b = a.rename ρ := by
      rw [same.2, numbered, Association.rename, index, renamed j i there]
    refine ⟨index, ?_, ?_⟩
    · rw [named] at claimed
      exact claimed
    · rw [renamed j i there, inBig, named]
  · intro i b found claimed
    obtain ⟨j, inside, there⟩ := members.exists_number (members.only i b found claimed)
    exact ⟨j, inside, renamed j i there⟩
  · intro j h found
    obtain ⟨i, h', there, inBig, same, -⟩ := halves.exists_place found
    refine ⟨?_, ?_⟩
    · rw [← members.length]
      exact same.flow.1.lt
    · rw [moved j i there, ← rename_half renamed moved same]
      exact inBig
  · intro i h b found association claimed
    have place := members.only h.flow.index b association claimed
    obtain ⟨j, inside, there⟩ := halves.exists_number (halves.only i h found place)
    exact ⟨j, inside, moved j i there⟩

variable [DecidablePred (· ∈ S)]

theorem SessionSim.visitAll (run : List Datagram) (sim : SessionSim S own places spots small big)
    (ours : ∀ d ∈ run, onPairs S d = true → own d.frame)
    (others : ∀ d ∈ run, onPairs S d = false → ¬ own d.frame) :
    ∃ more further,
      SessionSim S own (places ++ more) (spots ++ further)
          (small.visitAll (run.filter (onPairs S))).1 (big.visitAll run).1 ∧
        List.Forall₂ (AnswerAt (places ++ more)) (small.visitAll (run.filter (onPairs S))).2
          (answersTo (onPairs S) run (big.visitAll run).2) := by
  induction run generalizing places spots small big with
  | nil =>
    refine ⟨[], [], ?_, .nil⟩
    rw [List.append_nil, List.append_nil]
    exact sim
  | cons d rest ih =>
    have later : ∀ e ∈ rest, e ∈ d :: rest := fun e => List.mem_cons_of_mem d
    rw [visitAll_cons]
    cases here : onPairs S d with
    | true =>
      obtain ⟨more, further, after, answer⟩ := sim.visit here (ours d List.mem_cons_self here)
      obtain ⟨more', further', final, answers⟩ := ih after
        (fun e member => ours e (later e member)) fun e member => others e (later e member)
      rw [List.append_assoc, List.append_assoc] at final
      rw [List.append_assoc] at answers
      have first := answer.append more'
      rw [List.append_assoc] at first
      rw [List.filter_cons_of_pos here, visitAll_cons, answersTo_cons_of_pos _ _ _ here]
      exact ⟨more ++ more', further ++ further', final, .cons first answers⟩
    | false =>
      have after := sim.visit_other here (others d List.mem_cons_self here)
      have other : ¬ onPairs S d = true := by
        rw [here]
        exact Bool.false_ne_true
      obtain ⟨more, further, final, answers⟩ := ih after
        (fun e member => ours e (later e member)) fun e member => others e (later e member)
      rw [List.filter_cons_of_neg other, answersTo_cons_of_neg _ _ _ here]
      exact ⟨more, further, final, answers⟩

end Isolation

namespace Session

open Isolation

/-- Datagrams on the pairs in `S` are answered as if there were no other ones, up to one increasing
renaming of the associations, unless a frame carries datagrams of both kinds. -/
theorem answers_undisturbed {config : Config} {session : Session}
    (fresh : Session.new config = .ok session) (S : Set (Sym2 UInt16)) [DecidablePred (· ∈ S)]
    (run : List Datagram)
    (apart : ∀ d ∈ run, ∀ e ∈ run, onPairs S d = true → onPairs S e = false → d.frame ≠ e.frame) :
    let whole := session.visitAll run
    let part := session.visitAll (run.filter (onPairs S))
    ∃ ρ σ : Nat → Nat, StrictMono ρ ∧ StrictMono σ ∧
      answersTo (onPairs S) run whole.2 = part.2.map (Answer.rename ρ) ∧
      Corresponds S ρ σ part.1 whole.1 := by
  obtain ⟨-, rfl⟩ := Session.new_eq_ok_iff.mp fresh
  let own (frame : FrameNumber) : Prop := ∃ d ∈ run, onPairs S d = true ∧ d.frame = frame
  have others : ∀ e ∈ run, onPairs S e = false → ¬ own e.frame := by
    rintro e there outside ⟨d, member, inside, same⟩
    exact apart d member e there inside outside same
  obtain ⟨places, spots, sim, answers⟩ := (sessionSim_start S own config).visitAll run
    (fun d there inside => ⟨d, there, inside, rfl⟩) others
  rw [List.nil_append] at sim answers
  have members := sim.table.members
  have halves := sim.tables.tracker.members
  refine ⟨extend places _, extend spots _,
    strictMono_extend members.increasing fun i => members.place_lt,
    strictMono_extend halves.increasing fun i => halves.place_lt,
    rename_answers (fun j i => extend_of_at) answers,
    sim.corresponds (fun j i => extend_of_at) fun j i => extend_of_at⟩

def between (frame : FrameNumber) (p q : UInt16) (tag : UInt32) (chunk : Bytes) : Datagram :=
  let data := Wire.CommonHeader.write ⟨p, q, tag, 0⟩ ++ chunk
  let lower : Address := .ofOctets 10 0 0 1
  let upper : Address := .ofOctets 10 0 0 2
  ⟨frame, ⟨frame.toNat, 0⟩, if p ≤ q then lower else upper, if p ≤ q then upper else lower, data,
    data.length⟩

/-- Two handshakes and two messages that take turns; the last datagram is read again. -/
def takingTurns : List Datagram :=
  [between 1 5 6 0 (Wire.InitChunk.write ⟨3, 1500, 1, 1, 20⟩ false),
    between 2 2905 2906 0 (Wire.InitChunk.write ⟨9, 1500, 1, 1, 10⟩ false),
    between 3 6 5 3 (Wire.InitChunk.write ⟨4, 1500, 1, 1, 20⟩ true),
    between 4 2906 2905 9 (Wire.InitChunk.write ⟨7, 1500, 1, 1, 10⟩ true),
    between 5 2905 2906 7 (Wire.DataChunk.write ⟨10, 1, 5, 0, [65, 66], false, true, false⟩),
    between 6 5 6 4 (Wire.DataChunk.write ⟨20, 1, 5, 0, [70], false, true, false⟩),
    between 7 2905 2906 7 (Wire.DataChunk.write ⟨11, 1, 5, 0, [67], false, false, true⟩),
    between 7 2905 2906 7 (Wire.DataChunk.write ⟨11, 1, 5, 0, [67], false, false, true⟩)]

theorem answers_undisturbed_by_an_earlier_pair :
    let S : Set (Sym2 UInt16) := {z | z = s(2905, 2906)}
    let whole := (start {}).visitAll takingTurns
    let part := (start {}).visitAll (takingTurns.filter (onPairs S))
    Session.new {} = .ok (start {}) ∧
      (∀ d ∈ takingTurns, ∀ e ∈ takingTurns, onPairs S d = true → onPairs S e = false →
        d.frame ≠ e.frame) ∧
      ∃ ρ σ : Nat → Nat, StrictMono ρ ∧ StrictMono σ ∧ ρ 0 = 1 ∧
        answersTo (onPairs S) takingTurns whole.2 = part.2.map (Answer.rename ρ) ∧
        Corresponds S ρ σ part.1 whole.1 := by
  intro S whole part
  have fresh : Session.new {} = .ok (start {}) := rfl
  have apart : ∀ d ∈ takingTurns, ∀ e ∈ takingTurns, onPairs S d = true → onPairs S e = false →
      d.frame ≠ e.frame := by decide +kernel
  have single : part.1.associations.associations.length = 1 := by decide +kernel
  have second : (whole.1.associations.associations[1]?.map (·.ports)) = some s(2905, 2906) := by
    decide +kernel
  obtain ⟨ρ, σ, increasing, increasing', answers, known⟩ :=
    answers_undisturbed fresh S takingTurns apart
  obtain ⟨b, found, ports⟩ := Option.map_eq_some_iff.mp second
  obtain ⟨j, inside, place⟩ := known.allAssociations 1 b found ports
  have first : j = 0 := Nat.lt_one_iff.mp (Nat.lt_of_lt_of_eq inside single)
  rw [first] at place
  exact ⟨fresh, apart, ρ, σ, increasing, increasing', place, answers, known⟩

end Session

end SctpTrace
