/-!
# Rounding a quotient of naturals

`divRound n d tie` is `n / d` rounded to the nearest natural; an exact
half goes where `tie` says. Every rounding in the library (reading decimals
into doubles, fixed significant digits, choosing between two shortest
candidates) goes through this one function. `decimalLength` counts
decimal digits.
-/

namespace RoundRobin

/-- Where a quotient that lies exactly halfway between two naturals goes. -/
inductive Tie where
  /-- To the even neighbour. -/
  | toEven
  /-- To the larger neighbour. -/
  | up
  deriving DecidableEq, Inhabited

def Tie.roundsUp (tie : Tie) (q r d : Nat) : Bool :=
  if 2 * r > d then true
  else if 2 * r < d then false
  else
    match tie with
    | .toEven => q % 2 == 1
    | .up => true

def divRound (n d : Nat) (tie : Tie) : Nat :=
  if tie.roundsUp (n / d) (n % d) d then n / d + 1 else n / d

def decimalLength (n : Nat) : Nat :=
  if n < 10 then 1 else decimalLength (n / 10) + 1
termination_by n
decreasing_by omega

theorem decimalLength_pos (n : Nat) : 0 < decimalLength n := by
  unfold decimalLength
  split <;> omega

/-- The decimal digits of `n`, most significant first, padded with leading
zeros to at least `width` digits. -/
def decimalDigits (n width : Nat) : List Char :=
  let body := (Nat.toDigits 10 n)
  List.replicate (width - body.length) '0' ++ body

/-- Drops trailing decimal zeros: `(d, p)` and the result denote the same
`d * 10 ^ p`. -/
def stripZeros (d : Nat) (p : Int) : Nat × Int :=
  if h : d ≠ 0 ∧ d % 10 = 0 then stripZeros (d / 10) (p + 1) else (d, p)
termination_by d
decreasing_by omega

end RoundRobin
