/-!
The tokens of JSON text. A number is kept as it is written. A string is kept as text if its escapes
name characters; one with an unpaired surrogate is a string all the same, but has no text.
-/
namespace SctpTrace.Json

structure Numeral where
  negative : Bool
  whole : List Nat
  /-- The digits after the point; none if there is no point. -/
  fraction : Option (List Nat)
  exponent : Option Int
  deriving DecidableEq, Repr

inductive Token where
  | openList
  | closeList
  | openRecord
  | closeRecord
  | comma
  | colon
  | null
  | bool (value : Bool)
  | number (value : Numeral)
  | text (value : Option String)
  deriving DecidableEq, Repr

def digit? (c : Char) : Option Nat := if c.isDigit then some (c.toNat - '0'.toNat) else none

def digitsValue (digits : List Nat) : Nat := digits.foldl (fun n d => n * 10 + d) 0

def takeDigits (cs : List Char) : List Nat × List Char :=
  ((cs.takeWhile Char.isDigit).filterMap digit?, cs.dropWhile Char.isDigit)

def takeSign (cs : List Char) : Bool × List Char :=
  match cs with
  | '-' :: rest => (true, rest)
  | '+' :: rest => (false, rest)
  | _ => (false, cs)

def exponent? (cs : List Char) : Option (Option Int) :=
  match cs with
  | [] => some none
  | mark :: rest =>
    let (negative, rest) := takeSign rest
    let (digits, rest) := takeDigits rest
    if (mark ≠ 'e' ∧ mark ≠ 'E') ∨ digits = [] ∨ rest ≠ [] then none
    else
      let size : Int := digitsValue digits
      some (some (if negative then -size else size))

/-- A number stands without leading zeros, and with digits on both sides of a point. -/
def numeral? (cs : List Char) : Option Numeral :=
  let (negative, cs) :=
    match cs with
    | '-' :: rest => (true, rest)
    | _ => (false, cs)
  let (whole, cs) := takeDigits cs
  if whole = [] ∨ (whole.head? = some 0 ∧ whole ≠ [0]) then none
  else
    match cs with
    | '.' :: rest =>
      let (fraction, rest) := takeDigits rest
      if fraction = [] then none
      else (exponent? rest).map fun e => ⟨negative, whole, some fraction, e⟩
    | _ => (exponent? cs).map fun e => ⟨negative, whole, none, e⟩

def hexValue? (c : Char) : Option Nat :=
  if '0' ≤ c ∧ c ≤ '9' then some (c.toNat - '0'.toNat)
  else if 'a' ≤ c ∧ c ≤ 'f' then some (c.toNat - 'a'.toNat + 10)
  else if 'A' ≤ c ∧ c ≤ 'F' then some (c.toNat - 'A'.toNat + 10)
  else none

def hexUnit? (a b c d : Char) : Option Nat := do
  let a ← hexValue? a
  let b ← hexValue? b
  let c ← hexValue? c
  let d ← hexValue? d
  return ((a * 16 + b) * 16 + c) * 16 + d

def simpleEscape? : Char → Option Nat
  | '"' => some 0x22
  | '\\' => some 0x5C
  | '/' => some 0x2F
  | 'b' => some 0x08
  | 'f' => some 0x0C
  | 'n' => some 0x0A
  | 'r' => some 0x0D
  | 't' => some 0x09
  | _ => none

def takeUnits? : List Char → Option (List Nat × List Char)
  | [] => none
  | '"' :: rest => some ([], rest)
  | '\\' :: 'u' :: a :: b :: c :: d :: rest => do
    let unit ← hexUnit? a b c d
    let (units, rest) ← takeUnits? rest
    return (unit :: units, rest)
  | '\\' :: escape :: rest => do
    let unit ← simpleEscape? escape
    let (units, rest) ← takeUnits? rest
    return (unit :: units, rest)
  | c :: rest =>
    if c.toNat < 0x20 ∨ c = '\\' then none
    else (takeUnits? rest).map fun (units, rest) => (c.toNat :: units, rest)

def isHighSurrogate (unit : Nat) : Bool := 0xD800 ≤ unit && unit < 0xDC00

def isLowSurrogate (unit : Nat) : Bool := 0xDC00 ≤ unit && unit < 0xE000

def pairValue (high low : Nat) : Nat := 0x10000 + (high - 0xD800) * 0x400 + (low - 0xDC00)

/-- The characters that code units name, if every surrogate is half of a pair. -/
def characters? : List Nat → Option (List Char)
  | [] => some []
  | unit :: rest =>
    if isHighSurrogate unit then
      match rest with
      | low :: rest =>
        if isLowSurrogate low then
          (characters? rest).map (Char.ofNat (pairValue unit low) :: ·)
        else none
      | [] => none
    else if isLowSurrogate unit then none
    else (characters? rest).map (Char.ofNat unit :: ·)

def isBlank (c : Char) : Bool := c == ' ' || c == '\t' || c == '\n' || c == '\r'

def isNumberChar (c : Char) : Bool := c.isDigit || "+-.eE".contains c

def word? (cs : List Char) : Option Token :=
  if cs = "null".toList then some .null
  else if cs = "true".toList then some (.bool true)
  else if cs = "false".toList then some (.bool false)
  else none

def mark? : Char → Option Token
  | '[' => some .openList
  | ']' => some .closeList
  | '\x7b' => some .openRecord
  | '\x7d' => some .closeRecord
  | ',' => some .comma
  | ':' => some .colon
  | _ => none

def takeToken? (c : Char) (rest : List Char) : Option (Token × List Char) :=
  if c = '"' then
    (takeUnits? rest).map fun (units, rest) =>
      (.text ((characters? units).map String.ofList), rest)
  else if c.isDigit || c == '-' then
    (numeral? (c :: rest.takeWhile isNumberChar)).map fun n =>
      (.number n, rest.dropWhile isNumberChar)
  else if c.isAlpha then
    (word? (c :: rest.takeWhile Char.isAlpha)).map fun t => (t, rest.dropWhile Char.isAlpha)
  else (mark? c).map fun t => (t, rest)

theorem length_dropWhile_le (p : Char → Bool) (cs : List Char) :
    (cs.dropWhile p).length ≤ cs.length :=
  (List.dropWhile_sublist p).length_le

theorem takeUnits?_length {cs rest : List Char} {units : List Nat}
    (h : takeUnits? cs = some (units, rest)) : rest.length ≤ cs.length := by
  fun_induction takeUnits? cs generalizing units rest with
  | case1 => simp at h
  | case2 => simp_all
  | case3 a b c d tail ih =>
    simp only [Option.bind_eq_bind, Option.bind_eq_some_iff, Option.pure_def, Option.some.injEq,
      Prod.mk.injEq, Prod.exists] at h
    obtain ⟨unit, _, later, after, found, _, rfl⟩ := h
    have := ih found
    simp only [List.length_cons]
    omega
  | case4 escape tail _ ih =>
    simp only [Option.bind_eq_bind, Option.bind_eq_some_iff, Option.pure_def, Option.some.injEq,
      Prod.mk.injEq, Prod.exists] at h
    obtain ⟨unit, _, later, after, found, _, rfl⟩ := h
    have := ih found
    simp only [List.length_cons]
    omega
  | case5 => simp at h
  | case6 c tail _ _ _ _ ih =>
    simp only [Option.map_eq_some_iff, Prod.mk.injEq, Prod.exists] at h
    obtain ⟨later, after, found, _, rfl⟩ := h
    have := ih found
    simp only [List.length_cons]
    omega

theorem takeToken?_length {c : Char} {cs rest : List Char} {t : Token}
    (h : takeToken? c cs = some (t, rest)) : rest.length ≤ cs.length := by
  unfold takeToken? at h
  split at h
  · simp only [Option.map_eq_some_iff, Prod.mk.injEq, Prod.exists] at h
    obtain ⟨units, after, found, _, rfl⟩ := h
    exact takeUnits?_length found
  · split at h
    · simp only [Option.map_eq_some_iff, Prod.mk.injEq] at h
      obtain ⟨n, _, _, rfl⟩ := h
      exact length_dropWhile_le _ _
    · split at h
      · simp only [Option.map_eq_some_iff, Prod.mk.injEq] at h
        obtain ⟨n, _, _, rfl⟩ := h
        exact length_dropWhile_le _ _
      · simp only [Option.map_eq_some_iff, Prod.mk.injEq] at h
        obtain ⟨n, _, _, rfl⟩ := h
        exact Nat.le_refl _

def tokens? : List Char → Option (List Token)
  | [] => some []
  | c :: rest =>
    if isBlank c then tokens? rest
    else
      match _taken : takeToken? c rest with
      | none => none
      | some (t, after) => (tokens? after).map (t :: ·)
termination_by cs => cs.length
decreasing_by
  · simp
  · have shrinks := takeToken?_length _taken
    simp only [List.length_cons]
    omega

end SctpTrace.Json
