import Mathlib.Algebra.BigOperators.Group.List.Basic
import Mathlib.Algebra.GroupWithZero.Nat
import SctpTrace.Checksum.Verify

/-!
One wrong octet is always found. A checksum tells octet strings apart that differ in one place
(`Tells`): the CRC because no step of its register merges two registers, Adler-32 because its low
sum moves by less than the modulus. The field itself is left out of the computation, and an octet
that is wrong there changes what is declared (`mismatched_of_wrong_octet`).
-/
namespace SctpTrace.Checksum

/-- Strings that differ in one octet have different sums. -/
def Tells (sum : Bytes → UInt32) : Prop :=
  ∀ (front back : Bytes) (a b : UInt8), sum (front ++ a :: back) = sum (front ++ b :: back) → a = b

section

variable {sum : Bytes → UInt32} (tells : Tells sum)

include tells

theorem Tells.before (later : Bytes) : Tells fun bytes => sum (bytes ++ later) := by
  intro front back a b same
  apply tells front (back ++ later)
  simpa only [List.append_assoc, List.cons_append] using same

theorem Tells.behind (earlier : Bytes) : Tells fun bytes => sum (earlier ++ bytes) := by
  intro front back a b same
  apply tells (earlier ++ front) back
  simpa only [List.append_assoc] using same

theorem Tells.set {bytes : Bytes} {i : Nat} {octet : UInt8} (inside : i < bytes.length)
    (same : sum (bytes.set i octet) = sum bytes) : bytes[i]? = some octet := by
  have whole : bytes = bytes.take i ++ bytes[i] :: bytes.drop (i + 1) := by
    rw [← List.drop_eq_getElem_cons inside, List.take_append_drop]
  have octets : octet = bytes[i] := by
    apply tells (bytes.take i) (bytes.drop (i + 1))
    rw [← whole, ← same, List.set_eq_take_append_cons_drop, if_pos inside]
  rw [octets, List.getElem?_eq_getElem inside]

end

namespace Crc

variable {r s : UInt32} {a b : UInt8}

theorem toNat_half (r : UInt32) : (r >>> 1).toNat = r.toNat / 2 := by
  simp [UInt32.toNat_shiftRight, Nat.shiftRight_eq_div_pow]

theorem odd_iff : r &&& 1 = 1 ↔ r.toNat % 2 = 1 := by
  rw [← UInt32.toNat_inj, UInt32.toNat_and]
  simp [Nat.and_one_is_mod]

theorem half_xor_ne (r s : UInt32) : r >>> 1 ^^^ polynomial ≠ s >>> 1 := by
  intro same
  have between : polynomial = r >>> 1 ^^^ s >>> 1 := by
    rw [← same, ← UInt32.xor_assoc, UInt32.xor_self, UInt32.zero_xor]
  -- The polynomial has the top bit set, which no halved register has.
  have low : (r >>> 1 ^^^ s >>> 1).toNat < 2 ^ 31 := by
    rw [UInt32.toNat_xor]
    have hr := r.toNat_lt
    have hs := s.toNat_lt
    apply Nat.xor_lt_two_pow
    · rw [toNat_half]
      omega
    · rw [toNat_half]
      omega
  rw [← between] at low
  revert low
  decide

/- The top bit of the result is the bit that was shifted out. -/
theorem shift_inj (same : shift r = shift s) : r = s := by
  have halves : r.toNat % 2 = s.toNat % 2 → r >>> 1 = s >>> 1 → r = s := by
    intro bits rest
    have half := congrArg UInt32.toNat rest
    rw [toNat_half, toNat_half] at half
    apply UInt32.toNat.inj
    omega
  simp only [shift, odd_iff] at same
  split at same <;> rename_i hr <;> split at same <;> rename_i hs
  · exact halves (by omega) ((UInt32.xor_left_inj _).mp same)
  · exact absurd same (half_xor_ne r s)
  · exact absurd same.symm (half_xor_ne s r)
  · exact halves (by omega) same

theorem repeat_shift_inj (n : Nat) (same : Nat.repeat shift n r = Nat.repeat shift n s) :
    r = s := by
  induction n with
  | zero => exact same
  | succ n ih => exact ih (shift_inj same)

theorem absorb_inj (same : absorb r a = absorb s b) :
    r ^^^ a.toUInt32 = s ^^^ b.toUInt32 :=
  repeat_shift_inj 8 same

theorem foldl_absorb_inj (bytes : Bytes) (same : bytes.foldl absorb r = bytes.foldl absorb s) :
    r = s := by
  induction bytes generalizing r s with
  | nil => exact same
  | cons a rest ih => exact (UInt32.xor_left_inj _).mp (absorb_inj (ih same))

theorem tells_crc32c : Tells crc32c := by
  intro front back a b same
  have registers := (UInt32.xor_left_inj _).mp same
  rw [foldl_absorb_append, foldl_absorb_append, List.foldl_cons, List.foldl_cons] at registers
  have octets := (UInt32.xor_right_inj _).mp (absorb_inj (foldl_absorb_inj back registers))
  have numbers := congrArg UInt32.toNat octets
  apply UInt8.toNat.inj
  simpa using numbers

end Crc

namespace Adler

theorem low_foldl_absorb (bytes : Bytes) (s : Sums) :
    (bytes.foldl absorb s).low % modulus = (s.low + (bytes.map UInt8.toNat).sum) % modulus := by
  induction bytes generalizing s with
  | nil => simp
  | cons a rest ih =>
    rw [List.foldl_cons, ih, List.map_cons, List.sum_cons, absorb, Nat.mod_add_mod, Nat.add_assoc]

theorem Sums.low_of_word {s t : Sums} (hs : s.low < modulus ∧ s.high < modulus)
    (ht : t.low < modulus ∧ t.high < modulus) (same : s.word = t.word) : s.low = t.low := by
  have numbers := congrArg UInt32.toNat same
  simp only [word, UInt32.toNat_ofNat'] at numbers
  simp only [modulus] at hs ht
  omega

theorem low_adler32 (front back : Bytes) (a : UInt8) :
    ((front ++ a :: back).foldl absorb start).low % modulus =
      (1 + (front.map UInt8.toNat).sum + a.toNat + (back.map UInt8.toNat).sum) % modulus := by
  rw [low_foldl_absorb]
  simp only [start, List.map_append, List.map_cons, List.sum_append, List.sum_cons, Nat.add_assoc]

theorem tells_adler32 : Tells adler32 := by
  intro front back a b same
  have bounds : ∀ bytes : Bytes,
      (bytes.foldl absorb start).low < modulus ∧ (bytes.foldl absorb start).high < modulus :=
    fun bytes => foldl_absorb_bounds bytes (by decide)
  have low := Sums.low_of_word (bounds _) (bounds _) same
  have ofA := low_adler32 front back a
  have ofB := low_adler32 front back b
  have ha := a.toNat_lt
  have hb := b.toNat_lt
  rw [low, ofB] at ofA
  simp only [modulus] at ofA
  apply UInt8.toNat.inj
  omega

end Adler

theorem octets_of_word {a b c d a' b' c' d' : Nat}
    (octets : a < 256 ∧ b < 256 ∧ c < 256 ∧ d < 256)
    (others : a' < 256 ∧ b' < 256 ∧ c' < 256 ∧ d' < 256)
    (same : UInt32.ofNat (((a * 256 + b) * 256 + c) * 256 + d) =
      UInt32.ofNat (((a' * 256 + b') * 256 + c') * 256 + d')) :
    a = a' ∧ b = b' ∧ c = c' ∧ d = d' := by
  have numbers := congrArg UInt32.toNat same
  simp only [UInt32.toNat_ofNat'] at numbers
  omega

theorem reverseOctets_inj {v w : UInt32} (same : reverseOctets v = reverseOctets w) : v = w := by
  have hv := v.toNat_lt
  have hw := w.toNat_lt
  have octets := octets_of_word (by omega) (by omega) same
  apply UInt32.toNat.inj
  omega

/- The checksum field in a datagram. -/

def fieldWord : Bytes → UInt32
  | [a, b, c, d] =>
    UInt32.ofNat (((a.toNat * 256 + b.toNat) * 256 + c.toNat) * 256 + d.toNat)
  | _ => 0

theorem fieldWord_inj {field other : Bytes} (inField : field.length = 4)
    (inOther : other.length = 4) (same : fieldWord field = fieldWord other) : field = other := by
  match field, inField, other, inOther with
  | [a, b, c, d], _, [a', b', c', d'], _ =>
    have octets := octets_of_word ⟨a.toNat_lt, b.toNat_lt, c.toNat_lt, d.toNat_lt⟩
      ⟨a'.toNat_lt, b'.toNat_lt, c'.toNat_lt, d'.toNat_lt⟩ same
    simpa [UInt8.toNat_inj] using octets

variable {head field body datagram : Bytes}

theorem exists_field (long : fieldEnd ≤ datagram.length) : ∃ head field body : Bytes,
    head.length = fieldOffset ∧ field.length = 4 ∧ datagram = head ++ (field ++ body) := by
  simp only [fieldEnd] at long
  refine ⟨datagram.take 8, (datagram.drop 8).take 4, datagram.drop 12, ?_, ?_, ?_⟩
  · rw [List.length_take, fieldOffset]
    omega
  · rw [List.length_take, List.length_drop]
    omega
  · have later : datagram.drop 12 = (datagram.drop 8).drop 4 := by rw [List.drop_drop]
    rw [later, List.take_append_drop, List.take_append_drop]

section

variable (before : head.length = fieldOffset) (inField : field.length = 4)

include before inField

theorem zeroed_of_field : zeroed (head ++ (field ++ body)) = head ++ ([0, 0, 0, 0] ++ body) := by
  have long : ¬ (head ++ (field ++ body)).length < fieldEnd := by
    simp only [List.length_append, before, inField, fieldOffset, fieldEnd]
    omega
  have front : (head ++ (field ++ body)).take fieldOffset = head := by
    rw [← before, List.take_left]
  have back : (head ++ (field ++ body)).drop fieldEnd = body := by
    have whole : fieldEnd = head.length + field.length := by rw [before, inField]; rfl
    rw [whole, ← List.drop_drop, List.drop_left, List.drop_left]
  rw [zeroed, if_neg long, front, back, List.append_assoc]

theorem declared_of_field : declared (head ++ (field ++ body)) = fieldWord field := by
  rw [declared, ← before, List.drop_left]
  match field, inField with
  | [a, b, c, d], _ => rfl

end

variable {reported i : Nat} {method : Method} {octet : UInt8}

/-- A wrong octet before or behind the field changes the sum and not what is declared, a wrong one in
the field what is declared and not the sum. -/
theorem declared_ne_of_wrong {sum : Bytes → UInt32} (tells : Tells sum)
    (long : fieldEnd ≤ datagram.length) (inside : i < datagram.length)
    (wrong : datagram[i]? ≠ some octet) (right : declared datagram = sum (zeroed datagram)) :
    declared (datagram.set i octet) ≠ sum (zeroed (datagram.set i octet)) := by
  obtain ⟨head, field, body, before, inField, rfl⟩ := exists_field long
  rw [declared_of_field before inField, zeroed_of_field before inField] at right
  intro rightToo
  rw [List.length_append, List.length_append] at inside
  by_cases inHead : i < head.length
  · have beforeToo : (head.set i octet).length = fieldOffset := by rw [List.length_set, before]
    rw [List.set_append_left _ _ inHead, declared_of_field beforeToo inField,
      zeroed_of_field beforeToo inField, right] at rightToo
    rw [List.getElem?_append_left inHead] at wrong
    exact wrong ((tells.before _).set inHead rightToo.symm)
  rw [List.set_append_right _ _ (by omega)] at rightToo
  rw [List.getElem?_append_right (by omega)] at wrong
  by_cases declares : i - head.length < field.length
  · have inFieldToo : (field.set (i - head.length) octet).length = 4 := by
      rw [List.length_set, inField]
    rw [List.set_append_left _ _ declares, declared_of_field before inFieldToo,
      zeroed_of_field before inFieldToo, ← right] at rightToo
    have octets : (field.set (i - head.length) octet)[i - head.length]? =
        field[i - head.length]? := by
      rw [fieldWord_inj inFieldToo inField rightToo]
    rw [List.getElem?_set_self declares] at octets
    rw [List.getElem?_append_left declares] at wrong
    exact wrong octets.symm
  · rw [List.set_append_right _ _ (by omega), declared_of_field before inField,
      zeroed_of_field before inField, right] at rightToo
    rw [List.getElem?_append_right (by omega)] at wrong
    exact wrong (((tells.behind head).behind _).set (by omega) rightToo.symm)

theorem compare_of_wrong {sum : Bytes → UInt32} (tells : Tells sum)
    (long : fieldEnd ≤ datagram.length) (inside : i < datagram.length)
    (wrong : datagram[i]? ≠ some octet)
    (verified : (compare method (declared datagram) (sum (zeroed datagram))).status = .verified) :
    (compare method (declared (datagram.set i octet))
      (sum (zeroed (datagram.set i octet)))).status = .mismatched := by
  have right : declared datagram = sum (zeroed datagram) := by
    simpa [compare] using verified
  simp [compare, declared_ne_of_wrong tells long inside wrong right]

/-- In a verified datagram any single octet can be changed, one of the field too, and the checksum
does not match. -/
theorem mismatched_of_wrong_octet (definite : method = .crc32c ∨ method = .adler32)
    (verified : (verify datagram reported method).status = .verified)
    (inside : i < datagram.length) (wrong : octet ≠ datagram[i]) :
    (verify (datagram.set i octet) reported method).status = .mismatched := by
  have other : datagram[i]? ≠ some octet := by
    rw [List.getElem?_eq_getElem inside]
    intro same
    exact wrong (Option.some.inj same).symm
  have ableToo : checkable (datagram.set i octet) reported = checkable datagram reported := by
    simp only [checkable, List.length_set]
  unfold verify at verified ⊢
  rw [ableToo]
  cases able : checkable datagram reported with
  | false =>
    rw [able] at verified
    cases verified
  | true =>
    rw [able] at verified
    simp only [checkable, decide_eq_true_eq] at able
    rcases definite with rfl | rfl
    · have tells : Tells fun bytes => reverseOctets (Crc.crc32c bytes) :=
        fun front back a b same => Crc.tells_crc32c front back a b (reverseOctets_inj same)
      exact compare_of_wrong tells able.1 inside other verified
    · exact compare_of_wrong Adler.tells_adler32 able.1 inside other verified

def shutdownAck (field : Bytes) : Bytes :=
  [0x0b, 0x59, 0x0b, 0x59, 0x12, 0x34, 0x56, 0x78] ++ field ++ [0x08, 0x00, 0x00, 0x04]

theorem mismatched_of_wrong_octet_behind_and_in_the_field :
    (verify (shutdownAck [206, 151, 94, 153]) 16 .crc32c).status = .verified ∧
      (verify ((shutdownAck [206, 151, 94, 153]).set 15 5) 16 .crc32c).status = .mismatched ∧
      (verify (shutdownAck [21, 226, 1, 233]) 16 .adler32).status = .verified ∧
      (verify ((shutdownAck [21, 226, 1, 233]).set 9 227) 16 .adler32).status = .mismatched := by
  have crc : (verify (shutdownAck [206, 151, 94, 153]) 16 .crc32c).status = .verified := by
    decide +kernel
  have adler : (verify (shutdownAck [21, 226, 1, 233]) 16 .adler32).status = .verified := by
    decide +kernel
  exact ⟨crc, mismatched_of_wrong_octet (Or.inl rfl) crc (by decide) (by decide),
    adler, mismatched_of_wrong_octet (Or.inr rfl) adler (by decide) (by decide)⟩

end SctpTrace.Checksum
