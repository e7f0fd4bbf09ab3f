import RoundRobin.Number.Binary64
import RoundRobin.Number.Decimal

/-!
# A fixed number of significant digits

`Binary64.significant` rounds the exact value of a finite double to `count`
significant digits, an exact half going to the even last digit. Rounding up
may carry into a new leading digit, which moves the exponent by one and keeps
the count.
-/

namespace RoundRobin

namespace Binary64

/-- `count` significant digits of `mantissa * 2 ^ exponent`, rounded half to
even: a decimal whose digits have exactly `count` places (zero has only
zeros). -/
def significantOf (mantissa : Nat) (exponent : Int) (count : Nat) : Decimal :=
  if mantissa = 0 then ⟨0, 1 - count⟩
  else
    let num := mantissa * Nat.pow 2 exponent.toNat
    let den := Nat.pow 2 (-exponent).toNat
    let p := Decimal.magnitude num den - count + 1
    let d := Decimal.roundDiv num den p .toEven
    if d = Nat.pow 10 count then ⟨Nat.pow 10 (count - 1), p + 1⟩ else ⟨d, p⟩

end Binary64

end RoundRobin
