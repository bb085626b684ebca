/-!
The finite values of the 64-bit binary floating-point format, as exact numbers: a significand below
2^53 times a power of two. Rounding goes to the nearest value, ties to the even significand. The
shortest text has the fewest digits that round back to the value.
-/
namespace SctpTrace.Decimal

/-- The magnitude `significand · 2^power`. -/
structure Magnitude where
  significand : Nat
  power : Int
  deriving DecidableEq, Repr

structure Binary64 where
  negative : Bool
  magnitude : Magnitude
  deriving DecidableEq, Repr

structure Ratio where
  num : Nat
  den : Nat
  deriving DecidableEq, Repr

def lowestPower : Int := -1074

def highestPower : Int := 971

def significandLimit : Nat := 9007199254740992

def Ratio.shifted (q : Ratio) (power : Int) : Ratio :=
  if 0 ≤ power then ⟨q.num * Nat.pow 2 power.toNat, q.den⟩
  else ⟨q.num, q.den * Nat.pow 2 (-power).toNat⟩

def Ratio.floor (q : Ratio) : Nat := q.num / q.den

def Ratio.le (q r : Ratio) : Bool := q.num * r.den ≤ r.num * q.den

def Ratio.lt (q r : Ratio) : Bool := q.num * r.den < r.num * q.den

def Ratio.nearestEven (q : Ratio) : Nat :=
  let whole := q.floor
  let twice := 2 * (q.num % q.den)
  if twice < q.den then whole
  else if q.den < twice then whole + 1
  else whole + whole % 2

def Ratio.nearestUp (q : Ratio) : Nat := Ratio.floor ⟨2 * q.num + q.den, 2 * q.den⟩

namespace Magnitude

def zero : Magnitude := ⟨0, lowestPower⟩

def ratio (m : Magnitude) : Ratio := Ratio.shifted ⟨m.significand, 1⟩ m.power

/-- The power of two on whose multiples a quotient is rounded. -/
def gridPower (q : Ratio) : Int :=
  let estimate : Int := (q.num.log2 : Int) - (q.den.log2 : Int) - 53
  let power := max lowestPower estimate
  if (q.shifted (-power)).floor < significandLimit then power else power + 1

def round? (q : Ratio) : Option Magnitude :=
  let power := gridPower q
  let significand := (q.shifted (-power)).nearestEven
  let m : Magnitude :=
    if significand = significandLimit then ⟨significandLimit / 2, power + 1⟩
    else ⟨significand, power⟩
  if q.num = 0 then some zero else if highestPower < m.power then none else some m

def times? (m n : Magnitude) : Option Magnitude :=
  let q := m.ratio
  let r := n.ratio
  round? ⟨q.num * r.num, q.den * r.den⟩

def over? (m n : Magnitude) : Option Magnitude :=
  let q := m.ratio
  let r := n.ratio
  round? ⟨q.num * r.den, q.den * r.num⟩

def tenTo? (exponent : Nat) : Option Magnitude := round? ⟨Nat.pow 10 exponent, 1⟩

/- Powers of ten up to 308 are applied in one step. For lower exponents the value is first divided
   by 10^308, as often as it takes; three times are enough to bring any significand of 64 bits to
   zero. -/
def scaleDown? : Nat → Magnitude → Nat → Option Magnitude
  | 0, _, _ => some zero
  | rounds + 1, m, exponent =>
    if m.significand = 0 then some zero
    else if exponent ≤ 308 then (tenTo? exponent).bind m.over?
    else do
      let m ← (tenTo? 308).bind m.over?
      scaleDown? rounds m (exponent - 308)

/-- `significand · 10^exponent`: both factors are rounded, then the result is. -/
def ofDecimal? (significand : Nat) (exponent : Int) : Option Magnitude := do
  let m ← round? ⟨significand, 1⟩
  if 308 < exponent then
    if m.significand = 0 then some zero else none
  else if 0 ≤ exponent then (tenTo? exponent.toNat).bind m.times?
  else scaleDown? 4 m (-exponent).toNat

/- Shortest text. -/

def scaledByTen (q : Ratio) (exponent : Int) : Ratio :=
  if 0 ≤ exponent then ⟨q.num * Nat.pow 10 exponent.toNat, q.den⟩
  else ⟨q.num, q.den * Nat.pow 10 (-exponent).toNat⟩

structure Written where
  digits : Nat
  exponent : Int
  deriving DecidableEq, Repr

def Written.ratio (w : Written) : Ratio := scaledByTen ⟨w.digits, 1⟩ w.exponent

def readsBack (m : Magnitude) (w : Written) : Bool := decide (round? w.ratio = some m)

/-- The exponent of the leading digit, searched upward from one that is too low. -/
def leadingFrom : Nat → Ratio → Int → Int
  | 0, _, low => low
  | tries + 1, q, low =>
    if Ratio.lt q (scaledByTen ⟨1, 1⟩ (low + 1)) then low else leadingFrom tries q (low + 1)

def leadingExponent (m : Magnitude) : Int := leadingFrom 640 m.ratio (-325)

/-- The nearer one of the two neighbours on a decimal grid that reads back, the higher one of two
that are equally near. -/
def onGrid? (m : Magnitude) (exponent : Int) : Option Written :=
  let scaled := scaledByTen m.ratio (-exponent)
  let below : Written := ⟨scaled.floor, exponent⟩
  let above : Written := ⟨scaled.floor + 1, exponent⟩
  let nearer :=
    if 2 * (scaled.num % scaled.den) < scaled.den then [below, above] else [above, below]
  nearer.find? m.readsBack

/- The first grid is one step coarser than the leading digit: its point above the value is the power
   of ten to which the value may round up. A grid with a hit thus never gives a trailing zero. -/
def shortest (m : Magnitude) : Written :=
  let coarsest := leadingExponent m + 1
  let grids := (List.range 18).map fun n : Nat => coarsest - n
  (grids.findSome? m.onGrid?).getD ⟨0, 0⟩

end Magnitude

def Magnitude.text (m : Magnitude) : String :=
  if m.significand = 0 then "0"
  else
    let w := m.shortest
    let digits := Nat.toDigits 10 w.digits
    if 0 ≤ w.exponent then
      String.ofList (digits ++ List.replicate w.exponent.toNat '0')
    else
      let places := (-w.exponent).toNat
      let padded := List.replicate (places + 1 - digits.length) '0' ++ digits
      let whole := padded.take (padded.length - places)
      String.ofList (whole ++ '.' :: padded.drop (padded.length - places))

example : (Magnitude.ofDecimal? 1 (-6)).map Magnitude.text = some "0.000001" := by decide +kernel

example : (Magnitude.ofDecimal? 75932874094247425 (-2)).map Magnitude.text =
    some "759328740942474.3" := by decide +kernel

namespace Binary64

def isZero (x : Binary64) : Bool := x.magnitude.significand == 0

def text (x : Binary64) : String :=
  if x.negative then "-" ++ x.magnitude.text else x.magnitude.text

/-- The nearest natural number up to a limit, a half rounded up; nothing is below zero. -/
def toNat (limit : Nat) (x : Binary64) : Nat :=
  if x.negative then 0 else min limit x.magnitude.ratio.nearestUp

end Binary64

end SctpTrace.Decimal
