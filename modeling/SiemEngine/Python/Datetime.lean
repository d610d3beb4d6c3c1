import Mathlib.Data.Int.Notation
import Mathlib.Data.Nat.Notation

/-!
# UTC datetimes

A `datetime` normalised to UTC is its number of microseconds since the epoch. `civil`
is the proleptic Gregorian date of a day number; `isoformat` prints as
`datetime.isoformat` does for an aware UTC value.
-/

namespace SiemEngine

abbrev Time := ℤ

namespace Datetime

def microsPerSecond : ℤ := 1000000
def microsPerDay : ℤ := 86400 * microsPerSecond

/-- Year, month and day of a day counted from 1970-01-01. -/
def civil (day : ℤ) : ℤ × ℤ × ℤ :=
  let z := day + 719468
  let era := z / 146097
  let doe := z % 146097
  let yoe := (doe - doe / 1460 + doe / 36524 - doe / 146096) / 365
  let doy := doe - (365 * yoe + yoe / 4 - yoe / 100)
  let mp := (5 * doy + 2) / 153
  let month := if mp < 10 then mp + 3 else mp - 9
  (yoe + era * 400 + (if month ≤ 2 then 1 else 0), month, doy - (153 * mp + 2) / 5 + 1)

def secondOfDay (t : Time) : ℤ := t % microsPerDay / microsPerSecond

def hour (t : Time) : ℤ := secondOfDay t / 3600

def pad (width : ℕ) (n : ℤ) : String :=
  let s := toString n
  String.ofList (List.replicate (width - s.length) '0') ++ s

def isoformat (t : Time) : String :=
  let (y, m, d) := civil (t / microsPerDay)
  let s := secondOfDay t
  let us := t % microsPerSecond
  pad 4 y ++ "-" ++ pad 2 m ++ "-" ++ pad 2 d ++ "T" ++ pad 2 (s / 3600) ++ ":" ++
    pad 2 (s / 60 % 60) ++ ":" ++ pad 2 (s % 60) ++
    (if us = 0 then "" else "." ++ pad 6 us) ++ "+00:00"

/-- `datetime.min` and `datetime.max` in UTC, the range of every representable value. -/
def minTime : Time := -62135596800 * microsPerSecond
def maxTime : Time := 253402300800 * microsPerSecond - 1

end Datetime

end SiemEngine
