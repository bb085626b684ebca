/-!
Capture times: an instant is a count of seconds since 1970 with a nanosecond part, a span is the
time between two instants when it is not negative. `Instant.text` writes an instant as an
RFC 3339 date and time in UTC.
-/
namespace SctpTrace

structure Instant where
  seconds : Int
  nanos : Nat
  deriving DecidableEq, Repr

structure Span where
  seconds : Nat
  nanos : Nat
  deriving DecidableEq, Repr

structure Date where
  year : Int
  month : Nat
  day : Nat
  deriving DecidableEq, Repr

/- Years are counted from March, so that the leap day is the last day of its year. An era is the
   400 years after which the calendar repeats: 146097 days. -/
def Date.ofEpochDay (epochDay : Int) : Date :=
  let fromMarch := epochDay + 719468
  let era := fromMarch / 146097
  let dayOfEra := (fromMarch % 146097).toNat
  let yearOfEra :=
    (dayOfEra - dayOfEra / 1460 + dayOfEra / 36524 - dayOfEra / 146096) / 365
  let dayOfYear := dayOfEra - (365 * yearOfEra + yearOfEra / 4 - yearOfEra / 100)
  let monthFromMarch := (5 * dayOfYear + 2) / 153
  let day := dayOfYear - (153 * monthFromMarch + 2) / 5 + 1
  let month := if monthFromMarch < 10 then monthFromMarch + 3 else monthFromMarch - 9
  let year := era * 400 + yearOfEra
  ⟨if month ≤ 2 then year + 1 else year, month, day⟩

def padded (width n : Nat) : String :=
  let digits := toString n
  String.ofList (List.replicate (width - digits.length) '0') ++ digits

/-- Four digits, or a sign and at least four digits for a year that four digits cannot hold. -/
def Date.yearText (d : Date) : String :=
  if d.year < 0 then "-" ++ padded 4 d.year.natAbs
  else if d.year ≤ 9999 then padded 4 d.year.natAbs
  else "+" ++ padded 4 d.year.natAbs

def Date.text (d : Date) : String :=
  d.yearText ++ "-" ++ padded 2 d.month ++ "-" ++ padded 2 d.day

/-- The shortest of no, 3, 6 or 9 digits that writes the nanoseconds exactly. -/
def fractionText (nanos : Nat) : String :=
  if nanos = 0 then ""
  else if nanos % 1000000 = 0 then "." ++ padded 3 (nanos / 1000000)
  else if nanos % 1000 = 0 then "." ++ padded 6 (nanos / 1000)
  else "." ++ padded 9 nanos

namespace Instant

def date (t : Instant) : Date := Date.ofEpochDay (t.seconds / 86400)

def secondOfDay (t : Instant) : Nat := (t.seconds % 86400).toNat

def text (t : Instant) : String :=
  let s := t.secondOfDay
  t.date.text ++ "T" ++ padded 2 (s / 3600) ++ ":" ++ padded 2 (s / 60 % 60) ++ ":" ++
    padded 2 (s % 60) ++ fractionText t.nanos ++ "Z"

example : (Instant.mk 951782400 120000000).text = "2000-02-29T00:00:00.120Z" := by decide +kernel

example : (Instant.mk (-1) 999999999).text = "1969-12-31T23:59:59.999999999Z" := by decide +kernel

def totalNanos (t : Instant) : Int := t.seconds * 1000000000 + t.nanos

/-- The span from `start` to `stop`, none if `stop` lies before `start`. Every second is as long as
the next: instants within a leap second, whose nanoseconds pass 10^9, are not covered. -/
def spanTo? (start stop : Instant) : Option Span :=
  let nanos := stop.totalNanos - start.totalNanos
  if nanos < 0 then none
  else some ⟨nanos.toNat / 1000000000, nanos.toNat % 1000000000⟩

end Instant

end SctpTrace
