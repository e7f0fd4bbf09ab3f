import RoundRobin.Number.Binary64
import RoundRobin.Number.Decimal

/-!
# Shortest decimals that read back

A finite double stands for every real that rounds to it: an interval around
`mantissa * 2 ^ exponent` reaching half a unit above and half the gap to the
predecessor below, ends included exactly when the mantissa is even (ties read
back to the even mantissa). `Binary64.shortest` finds the fewest significant
digits with a decimal in that interval. For `k` digits only the two decimals
of that grid around the value need testing: if any `k`-digit decimal lies in
the interval, one of those two does. Of two hits the nearer wins; an exact
tie goes as the printer's `Tie` says.

All quantities are scaled by `4 * den` so that the interval ends are naturals.
-/

namespace RoundRobin

namespace Binary64

/-- The value and the ends of its read-back interval, all over one denominator. -/
structure Interval where
  value : Nat
  low : Nat
  high : Nat
  den : Nat
  /-- Whether the ends themselves read back. -/
  closed : Bool

/-- The read-back interval of `mantissa * 2 ^ exponent`. `narrowBelow` says
that the predecessor is only half a unit away (a power of two above the least
normal). -/
def Interval.around (mantissa : Nat) (exponent : Int) (narrowBelow : Bool) : Interval :=
  let den := 4 * Nat.pow 2 (-exponent).toNat
  let unit := 4 * Nat.pow 2 exponent.toNat
  let value := 4 * mantissa * Nat.pow 2 exponent.toNat
  let below := if narrowBelow then unit / 4 else unit / 2
  { value, low := value - below, high := value + unit / 2, den, closed := mantissa % 2 == 0 }

def Interval.holds (i : Interval) (digits : Nat) (p : Int) : Bool :=
  let lo := Decimal.comparePow (digits * i.den) p i.low
  let hi := Decimal.comparePow (digits * i.den) p i.high
  if i.closed then lo != .lt && hi != .gt else lo == .gt && hi == .lt

/-- The decimal with `k` significant digits that reads back, if the grid of
`k`-digit decimals meets the interval: the nearer of the two grid points
around the value, a tie going as `tie` says. -/
def Interval.withDigits (i : Interval) (tie : Tie) (k : Nat) : Option Decimal :=
  let p := Decimal.magnitude i.value i.den - k + 1
  let below := Decimal.floorDiv i.value i.den p
  let above := below + 1
  match i.holds below p, i.holds above p with
  | false, false => none
  | true, false => some ⟨below, p⟩
  | false, true => some ⟨above, p⟩
  | true, true =>
    match Decimal.comparePow ((2 * below + 1) * i.den) p (2 * i.value) with
    | .gt => some ⟨below, p⟩
    | .lt => some ⟨above, p⟩
    | .eq =>
      if tie.roundsUp below 1 2 then some ⟨above, p⟩ else some ⟨below, p⟩

/-- The shortest decimal in the interval, without trailing zeros. Seventeen
digits always suffice for a double; the last line is never reached. -/
def Interval.shortest (i : Interval) (tie : Tie) : Decimal :=
  match (List.range 17).findSome? (fun k => i.withDigits tie (k + 1)) with
  | some d => let (digits, p) := stripZeros d.digits d.exponent; ⟨digits, p⟩
  | none => ⟨Decimal.floorDiv i.value i.den 0, 0⟩

/-- The shortest decimal that reads back as the finite positive
`mantissa * 2 ^ exponent`; zero gives `⟨0, 0⟩`. -/
def shortestOf (mantissa : Nat) (exponent : Int) (narrowBelow : Bool) (tie : Tie) : Decimal :=
  if mantissa = 0 then ⟨0, 0⟩
  else (Interval.around mantissa exponent narrowBelow).shortest tie

/-- Whether the predecessor of a finite double is only half a unit below it:
the fraction is zero and the value is a normal above the least normal. -/
def narrowBelow (x : Binary64) : Bool := x.fraction == 0 && x.biasedExponent > 1

end Binary64

end RoundRobin
