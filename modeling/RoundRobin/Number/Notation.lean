import RoundRobin.Number.Shortest
import RoundRobin.Number.Significant

/-!
# Writing a decimal

A `Notation` fixes the decisions of one number format: where the point goes
(always positional, always scientific, or positional for a range of
exponents), whether an integer keeps a `.0`, how the exponent is marked,
signed and padded, which way a tie between two shortest candidates goes, and the texts
of NaN and infinity. `Notation.shortest` writes the shortest decimal that
reads back; `Notation.fixed` writes a fixed count of significant digits.
-/

namespace RoundRobin

inductive Placement where
  /-- Every digit before the exponent, never an exponent. -/
  | positional
  /-- One digit before the point, then an exponent. -/
  | scientific
  /-- Positional when the scientific exponent lies in `[lo, hi]`, else scientific. -/
  | positionalWithin (lo hi : Int)
  deriving DecidableEq

/-- The decisions of one number format. -/
structure Notation where
  placement : Placement
  /-- Write `.0` after a positional integer. -/
  integerPoint : Bool
  /-- Write `.0` after a one-digit scientific mantissa. -/
  mantissaPoint : Bool
  exponentMark : String
  /-- Write `+` before an exponent that is not negative. -/
  exponentPlus : Bool
  /-- Least number of exponent digits, padded with zeros. -/
  exponentWidth : Nat
  /-- Which of two equally near shortest candidates is written. -/
  tie : Tie
  nanText : String
  /-- The text of positive infinity; negative infinity gets a minus sign. -/
  infinityText : String

namespace Notation

/-- Positional text of the digits with `point` of them before the decimal
point (zeros are added on either side as needed). -/
def positionalText (integerPoint : Bool) (digits : List Char) (point : Int) : List Char :=
  let n := digits.length
  if (n : Int) ≤ point then
    digits ++ List.replicate (point - n).toNat '0' ++ (if integerPoint then ['.', '0'] else [])
  else if 0 < point then
    digits.take point.toNat ++ '.' :: digits.drop point.toNat
  else
    '0' :: '.' :: List.replicate (-point).toNat '0' ++ digits

def scientificText (f : Notation) (digits : List Char) (point : Int) : List Char :=
  let e := point - 1
  let mantissa :=
    match digits with
    | [] => ['0']
    | [d] => if f.mantissaPoint then [d, '.', '0'] else [d]
    | d :: rest => d :: '.' :: rest
  let sign := if e < 0 then ['-'] else if f.exponentPlus then ['+'] else []
  mantissa ++ f.exponentMark.toList ++ sign ++ decimalDigits e.natAbs f.exponentWidth

def digitsText (f : Notation) (digits : List Char) (point : Int) : List Char :=
  match f.placement with
  | .positional => positionalText f.integerPoint digits point
  | .scientific => f.scientificText digits point
  | .positionalWithin lo hi =>
    if lo ≤ point - 1 ∧ point - 1 ≤ hi then positionalText f.integerPoint digits point
    else f.scientificText digits point

def withSpecials (f : Notation) (x : Binary64)
    (body : Nat → Int → Binary64 → List Char) : String :=
  match x.shape with
  | .nan => f.nanText
  | .infinite negative => (if negative then "-" else "") ++ f.infinityText
  | .finite negative m e =>
    String.ofList ((if negative then ['-'] else []) ++ body m e x)

def shortest (f : Notation) (x : Binary64) : String :=
  f.withSpecials x fun m e x =>
    let d := Binary64.shortestOf m e x.narrowBelow f.tie
    let width := decimalLength d.digits
    f.digitsText (d.digitChars width) (d.point width)

/-- `count` significant digits of `x`, rounded half to even, written in this
format with every trailing zero kept. -/
def fixed (f : Notation) (count : Nat) (x : Binary64) : String :=
  f.withSpecials x fun m e _ =>
    let d := Binary64.significantOf m e count
    f.digitsText (d.digitChars count) (d.point count)

end Notation

end RoundRobin
