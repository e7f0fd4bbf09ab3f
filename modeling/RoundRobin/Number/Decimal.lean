import RoundRobin.Number.Rounding

/-!
# Decimals and exact comparison with ratios

A `Decimal` is `digits * 10 ^ exponent`. The helpers here compare such a
quantity with a ratio of naturals without leaving `Nat`, and find the decimal
magnitude of a ratio; both the shortest and the fixed-digit printers are built
on them.
-/

namespace RoundRobin

/-- The quantity `digits * 10 ^ exponent`. -/
structure Decimal where
  digits : Nat
  exponent : Int
  deriving DecidableEq, Inhabited

namespace Decimal

def comparePow (a : Nat) (p : Int) (b : Nat) : Ordering :=
  if 0 ≤ p then compare (a * Nat.pow 10 p.toNat) b else compare a (b * Nat.pow 10 (-p).toNat)

def floorDiv (num den : Nat) (p : Int) : Nat :=
  if 0 ≤ p then num / (den * Nat.pow 10 p.toNat) else num * Nat.pow 10 (-p).toNat / den

def roundDiv (num den : Nat) (p : Int) (tie : Tie) : Nat :=
  if 0 ≤ p then divRound num (den * Nat.pow 10 p.toNat) tie
  else divRound (num * Nat.pow 10 (-p).toNat) den tie

/-- The decimal magnitude of a positive ratio: the `e` with
`10 ^ e ≤ num / den < 10 ^ (e + 1)`. -/
def magnitude (num den : Nat) : Int :=
  let e : Int := (decimalLength num : Int) - decimalLength den
  if comparePow den e num == .gt then e - 1 else e

def digitChars (d : Decimal) (width : Nat) : List Char := decimalDigits d.digits width

/-- The position of the decimal point counted from the first digit of a
`width`-digit rendering: `digits * 10 ^ exponent` has `point` digits before it. -/
def point (d : Decimal) (width : Nat) : Int := width + d.exponent

end Decimal

end RoundRobin
