import RoundRobin.Number.Rounding

/-!
# Calendar time

An instant given in milliseconds is taken to the nearest second, a half
second going up, also before the epoch. A second count is written as a UTC
date and time in the proleptic Gregorian calendar, `YYYY-MM-DDTHH:MM:SSZ`,
for years -262143 to 262142; a year outside 0 to 9999 carries its sign and
at least four digits.
-/

namespace RoundRobin

namespace Civil

/-- The nearest second to an instant in milliseconds, a half going up. -/
def secondOfMillis (millis : Int) : Int := (millis + 500) / 1000

/-- The first second of the supported calendar range (-262143-01-01T00:00:00Z). -/
def firstSecond : Int := -8334601228800

/-- The last second of the supported calendar range (+262142-12-31T23:59:59Z). -/
def lastSecond : Int := 8210266876799

def dateOfDays (days : Int) : Int × Nat × Nat :=
  let z := days + 719468
  let era := z / 146097
  let doe := z - era * 146097
  let yoe := (doe - doe / 1460 + doe / 36524 - doe / 146096) / 365
  let doy := doe - (365 * yoe + yoe / 4 - yoe / 100)
  let mp := (5 * doy + 2) / 153
  let d := doy - (153 * mp + 2) / 5 + 1
  let m := if mp < 10 then mp + 3 else mp - 9
  let y := yoe + era * 400 + (if m ≤ 2 then 1 else 0)
  (y, m.toNat, d.toNat)

def daysOfDate (y : Int) (m d : Nat) : Int :=
  let y := if m ≤ 2 then y - 1 else y
  let era := y / 400
  let yoe := y - era * 400
  let mp : Int := if m > 2 then m - 3 else m + 9
  let doy := (153 * mp + 2) / 5 + d - 1
  let doe := yoe * 365 + yoe / 4 - yoe / 100 + doy
  era * 146097 + doe - 719468

def padded (n width : Nat) : String := String.ofList (decimalDigits n width)

def yearText (y : Int) : String :=
  if 0 ≤ y ∧ y ≤ 9999 then padded y.toNat 4
  else (if y < 0 then "-" else "+") ++ padded y.natAbs 4

structure RangeError where
  second : Int
  deriving DecidableEq

def RangeError.message (e : RangeError) : String :=
  s!"timestamp {e.second} is outside the representable calendar range"

/-- A UTC date and time to the second. -/
structure DateTime where
  year : Int
  month : Nat
  day : Nat
  hour : Nat
  minute : Nat
  second : Nat
  deriving DecidableEq

namespace DateTime

def ofSecond (t : Int) : Except RangeError DateTime :=
  if t < firstSecond ∨ lastSecond < t then .error ⟨t⟩
  else
    let (y, m, d) := dateOfDays (t / 86400)
    let s := (t % 86400).toNat
    .ok ⟨y, m, d, s / 3600, s / 60 % 60, s % 60⟩

def toSecond (dt : DateTime) : Int :=
  daysOfDate dt.year dt.month dt.day * 86400 + dt.hour * 3600 + dt.minute * 60 + dt.second

def toMillis (dt : DateTime) : Int := dt.toSecond * 1000

def text (dt : DateTime) : String :=
  yearText dt.year ++ "-" ++ padded dt.month 2 ++ "-" ++ padded dt.day 2 ++ "T" ++
    padded dt.hour 2 ++ ":" ++ padded dt.minute 2 ++ ":" ++ padded dt.second 2 ++ "Z"

end DateTime

end Civil

end RoundRobin
