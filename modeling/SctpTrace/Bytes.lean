/-!
Octet strings and the big-endian words written in them. A reader takes a word from the front and
returns the rest; `word16?_write`, `word32?_write` say that reading undoes writing, whatever
follows.
-/
namespace SctpTrace

abbrev Bytes := List UInt8

namespace Bytes

def write16 (w : UInt16) : Bytes :=
  [UInt8.ofNat (w.toNat / 256), UInt8.ofNat w.toNat]

def write32 (w : UInt32) : Bytes :=
  [UInt8.ofNat (w.toNat / 16777216), UInt8.ofNat (w.toNat / 65536),
    UInt8.ofNat (w.toNat / 256), UInt8.ofNat w.toNat]

def octet? : Bytes → Option (UInt8 × Bytes)
  | a :: rest => some (a, rest)
  | [] => none

def word16? : Bytes → Option (UInt16 × Bytes)
  | a :: b :: rest => some (UInt16.ofNat (a.toNat * 256 + b.toNat), rest)
  | _ => none

def word32? : Bytes → Option (UInt32 × Bytes)
  | a :: b :: c :: d :: rest =>
    some (UInt32.ofNat (((a.toNat * 256 + b.toNat) * 256 + c.toNat) * 256 + d.toNat), rest)
  | _ => none

def cut? (n : Nat) (bytes : Bytes) : Option (Bytes × Bytes) :=
  let (front, rest) := bytes.splitAt n
  if front.length = n then some (front, rest) else none

def many? {α : Type} (read? : Bytes → Option (α × Bytes)) : Nat → Bytes → Option (List α × Bytes)
  | 0, bytes => some ([], bytes)
  | count + 1, bytes => do
    let (item, bytes) ← read? bytes
    let (items, bytes) ← many? read? count bytes
    return (item :: items, bytes)

@[simp] theorem length_write16 (w : UInt16) : (write16 w).length = 2 := rfl

@[simp] theorem length_write32 (w : UInt32) : (write32 w).length = 4 := rfl

@[simp] theorem octet?_cons (a : UInt8) (rest : Bytes) : octet? (a :: rest) = some (a, rest) := rfl

@[simp] theorem word16?_write (w : UInt16) (rest : Bytes) :
    word16? (write16 w ++ rest) = some (w, rest) := by
  have bound := w.toNat_lt
  simp only [write16, word16?, List.cons_append, List.nil_append, Option.some.injEq,
    Prod.mk.injEq, and_true]
  apply UInt16.toNat.inj
  simp only [UInt8.toNat_ofNat', UInt16.toNat_ofNat']
  omega

@[simp] theorem word32?_write (w : UInt32) (rest : Bytes) :
    word32? (write32 w ++ rest) = some (w, rest) := by
  have bound := w.toNat_lt
  simp only [write32, word32?, List.cons_append, List.nil_append, Option.some.injEq,
    Prod.mk.injEq, and_true]
  apply UInt32.toNat.inj
  simp only [UInt8.toNat_ofNat', UInt32.toNat_ofNat']
  omega

theorem octet?_length {bytes rest : Bytes} {a : UInt8} (h : octet? bytes = some (a, rest)) :
    bytes.length = rest.length + 1 := by
  cases bytes <;> simp_all [octet?]

theorem word16?_length {bytes rest : Bytes} {w : UInt16} (h : word16? bytes = some (w, rest)) :
    bytes.length = rest.length + 2 := by
  unfold word16? at h
  split at h <;> simp_all

theorem cut?_eq_some_iff {n : Nat} {bytes front rest : Bytes} :
    cut? n bytes = some (front, rest) ↔ bytes = front ++ rest ∧ front.length = n := by
  simp only [cut?, List.splitAt_eq]
  constructor
  · intro h
    split at h
    · rename_i len
      simp only [Option.some.injEq, Prod.mk.injEq] at h
      obtain ⟨rfl, rfl⟩ := h
      exact ⟨(List.take_append_drop n bytes).symm, len⟩
    · simp at h
  · rintro ⟨rfl, rfl⟩
    simp

theorem cut?_eq_none_iff {n : Nat} {bytes : Bytes} : cut? n bytes = none ↔ bytes.length < n := by
  simp only [cut?, List.splitAt_eq, List.length_take, ite_eq_right_iff, reduceCtorEq, imp_false]
  omega

theorem many?_write {α : Type} {read? : Bytes → Option (α × Bytes)} {write : α → Bytes}
    (item : ∀ a rest, read? (write a ++ rest) = some (a, rest)) (items : List α) (rest : Bytes) :
    many? read? items.length (items.flatMap write ++ rest) = some (items, rest) := by
  induction items with
  | nil => rfl
  | cons a as ih => simp [many?, List.append_assoc, item, ih]

end Bytes

end SctpTrace
