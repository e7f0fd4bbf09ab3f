import RoundRobin.Number.Binary64
import RoundRobin.Number.Rounding

/-!
# The nearest double to an exact quantity

`Binary64.ofRatio` rounds `num / den` to the nearest double, an exact half
going to the even mantissa, with gradual underflow below `2 ^ -1022` and
overflow to infinity. Reading decimal text (`Binary64.ofDecimal`) and
converting integers (`Binary64.ofInt`) are both this one rounding.
-/

namespace RoundRobin

namespace Binary64

/-- `num / (den * 2 ^ q)` as a quotient and remainder over the divisor, in
naturals whatever the sign of `q`. -/
def scaledDiv (num den : Nat) (q : Int) : Nat × Nat × Nat :=
  if 0 ≤ q then
    let d := den * Nat.pow 2 q.toNat
    (num / d, num % d, d)
  else
    let n := num * Nat.pow 2 (-q).toNat
    (n / den, n % den, den)

/-- The binary exponent of the last mantissa bit for `num / den`: the `q` with
`2 ^ 52 ≤ num / (den * 2 ^ q) < 2 ^ 53`, but never below the least exponent. -/
def unitExponent (num den : Nat) : Int :=
  let q : Int := (Nat.log2 num : Int) - Nat.log2 den - 52
  let q := if (scaledDiv num den q).1 < Nat.pow 2 52 then q - 1 else q
  max q leastExponent

/-- The double nearest to `num / den` with the given sign; ties go to the even
mantissa, and magnitudes from `2 ^ 1024 - 2 ^ 970` up become infinity. -/
def ofRatio (negative : Bool) (num den : Nat) : Binary64 :=
  if num = 0 ∨ den = 0 then zero negative
  else
    let q := unitExponent num den
    let (m, r, d) := scaledDiv num den q
    let m := if Tie.toEven.roundsUp m r d then m + 1 else m
    if m = Nat.pow 2 53 then ofShape negative (Nat.pow 2 52) (q + 1)
    else ofShape negative m q

/-- The double nearest to `digits * 10 ^ exponent`. Values with more than 309
decimal places above the point are infinite, and values below `10 ^ -325`
round to zero, so huge exponents cost nothing. -/
def ofDecimal (negative : Bool) (digits : Nat) (exponent : Int) : Binary64 :=
  if digits = 0 then zero negative
  else
    let top := exponent + decimalLength digits
    if top > 310 then infinity negative
    else if top < -324 then zero negative
    else if 0 ≤ exponent then ofRatio negative (digits * Nat.pow 10 exponent.toNat) 1
    else ofRatio negative digits (Nat.pow 10 (-exponent).toNat)

def ofInt (n : Int) : Binary64 := ofRatio (n < 0) n.natAbs 1

end Binary64

end RoundRobin
