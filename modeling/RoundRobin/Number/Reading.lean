import RoundRobin.Number.Decimal
import RoundRobin.Number.Nearest

/-!
# Reading the text of a double

`Binary64.ofText?` accepts an optional sign followed by `inf`, `infinity` or
`nan` in any letter case, or by decimal digits with an optional point and an
optional exponent (`e` or `E`, an optional sign, at least one digit). At least
one mantissa digit is required, on either side of the point. The value is the
nearest double to the exact decimal, so overlong digit strings and huge
exponents read correctly.
-/

namespace RoundRobin

namespace Binary64

def digitsValue (ds : List Char) : Nat :=
  ds.foldl (fun acc c => acc * 10 + (c.toNat - '0'.toNat)) 0

def splitSign : List Char → Bool × List Char
  | '-' :: rest => (true, rest)
  | '+' :: rest => (false, rest)
  | cs => (false, cs)

def exponentValue? (cs : List Char) : Option Int :=
  let (negative, ds) := splitSign cs
  if ds.isEmpty || !ds.all Char.isDigit then none
  else
    let v : Int := digitsValue ds
    some (if negative then -v else v)

/-- The decimal form after the sign: digits, an optional point and digits,
and an optional exponent, as `digits * 10 ^ exponent`. -/
def decimalForm? (cs : List Char) : Option Decimal :=
  let whole := cs.takeWhile Char.isDigit
  let rest := cs.dropWhile Char.isDigit
  let (fractional, rest) :=
    match rest with
    | '.' :: more => (more.takeWhile Char.isDigit, more.dropWhile Char.isDigit)
    | _ => ([], rest)
  if whole.isEmpty && fractional.isEmpty then none
  else
    let scale : Option Int :=
      match rest with
      | [] => some 0
      | c :: more => if c == 'e' || c == 'E' then exponentValue? more else none
    scale.map fun e => ⟨digitsValue (whole ++ fractional), e - fractional.length⟩

def ofDecimalText? (s : String) : Option Binary64 :=
  let (negative, body) := splitSign s.toList
  (decimalForm? body).map fun d => ofDecimal negative d.digits d.exponent

def ofText? (s : String) : Option Binary64 :=
  let (negative, body) := splitSign s.toList
  let word := String.ofList (body.map Char.toLower)
  if word == "inf" || word == "infinity" then some (infinity negative)
  else if word == "nan" then some (if negative then nan.neg else nan)
  else ofDecimalText? s

end Binary64

end RoundRobin
