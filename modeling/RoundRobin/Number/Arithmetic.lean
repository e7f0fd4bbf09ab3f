import RoundRobin.Number.Nearest

/-!
# Rounded products and quotients

The product and the quotient of two finite non-negative doubles, rounded to
the nearest double with ties to even: computed exactly on `mantissa * 2 ^ exponent`
and rounded once by `Binary64.ofRatio`, which is what IEEE 754 multiplication
and division do. `Binary64.powerOfTen k` is the double nearest `10 ^ k`.
-/

namespace RoundRobin

namespace Binary64

def ratio (x : Binary64) : Nat × Nat :=
  match x.shape with
  | .finite _ m e => (m * Nat.pow 2 e.toNat, Nat.pow 2 (-e).toNat)
  | _ => (0, 1)

def mulRounded (x y : Binary64) : Binary64 :=
  let (a, b) := x.ratio
  let (c, d) := y.ratio
  ofRatio false (a * c) (b * d)

def divRounded (x y : Binary64) : Binary64 :=
  let (a, b) := x.ratio
  let (c, d) := y.ratio
  ofRatio false (a * d) (b * c)

def powerOfTen (k : Nat) : Binary64 := ofDecimal false 1 k

end Binary64

end RoundRobin
