/-!
# Double-precision values as bit patterns

A `Binary64` is the 64-bit interchange pattern of an IEEE 754 double. Values
are kept as bits, not as `Float`, so that every NaN payload and the sign of zero
survive storage, and so that statements about them reduce to arithmetic on
`Nat`. `Binary64.shape` decodes a pattern into its sign and the exact value
`mantissa * 2 ^ exponent`; `Binary64.ofShape` is its inverse on finite values.
-/

namespace RoundRobin

/-- A double, held as its interchange bit pattern. -/
structure Binary64 where
  bits : UInt64
  deriving DecidableEq, Inhabited

namespace Binary64

def fractionWidth : Nat := 52

def topExponent : Nat := 2047

def leastExponent : Int := -1074

def negative (x : Binary64) : Bool := x.bits.toNat / Nat.pow 2 63 = 1

def biasedExponent (x : Binary64) : Nat := x.bits.toNat / Nat.pow 2 52 % Nat.pow 2 11

def fraction (x : Binary64) : Nat := x.bits.toNat % Nat.pow 2 52

/-- What a pattern denotes: a NaN, an infinity, or `mantissa * 2 ^ exponent`. -/
inductive Shape where
  | nan
  | infinite (negative : Bool)
  | finite (negative : Bool) (mantissa : Nat) (exponent : Int)
  deriving DecidableEq

/-- Decodes the three fields. Subnormals keep the least exponent and have no
hidden bit; normals add the hidden bit `2 ^ 52`. -/
def shape (x : Binary64) : Shape :=
  if x.biasedExponent = topExponent then
    if x.fraction = 0 then .infinite x.negative else .nan
  else if x.biasedExponent = 0 then
    .finite x.negative x.fraction leastExponent
  else
    .finite x.negative (x.fraction + Nat.pow 2 52) ((x.biasedExponent : Int) - 1075)

def ofFields (negative : Bool) (biased fraction : Nat) : Binary64 :=
  ⟨UInt64.ofNat ((if negative then Nat.pow 2 63 else 0) + biased % Nat.pow 2 11 * Nat.pow 2 52 + fraction % Nat.pow 2 52)⟩

/-- The quiet NaN that arithmetic produces by default. -/
def nan : Binary64 := ⟨0x7ff8000000000000⟩

def infinity (negative : Bool) : Binary64 := ofFields negative topExponent 0

def zero (negative : Bool) : Binary64 := ofFields negative 0 0

/-- The same pattern with the sign bit flipped; this is negation, also on NaN. -/
def neg (x : Binary64) : Binary64 := ⟨x.bits ^^^ 0x8000000000000000⟩

def isNaN (x : Binary64) : Bool := x.shape == .nan

def isFinite (x : Binary64) : Bool :=
  match x.shape with
  | .finite .. => true
  | _ => false

def isZero (x : Binary64) : Bool :=
  match x.shape with
  | .finite _ m _ => m == 0
  | _ => false

def abs (x : Binary64) : Binary64 := ⟨x.bits &&& 0x7fffffffffffffff⟩

/-- Numeric order on magnitudes: for patterns without sign bit it is the order
of the bits, as long as neither is a NaN. -/
def magnitudeLt (x y : Binary64) : Bool := x.abs.bits.toNat < y.abs.bits.toNat

/-- The hardware value with these bits, for the few places that compute with doubles. -/
def toFloat (x : Binary64) : Float := Float.ofBits x.bits

def ofFloat (f : Float) : Binary64 := ⟨f.toBits⟩

/-- Encodes a sign and a value `mantissa * 2 ^ exponent` that is already a
double: a mantissa below `2 ^ 53`, with a mantissa of at least `2 ^ 52` unless
the exponent is the least one. A mantissa of `2 ^ 53` or more past the top
exponent gives infinity. -/
def ofShape (negative : Bool) (mantissa : Nat) (exponent : Int) : Binary64 :=
  if mantissa < Nat.pow 2 52 then
    ofFields negative 0 mantissa
  else
    let biased := exponent + 1075
    if biased ≥ topExponent then infinity negative
    else ofFields negative biased.toNat (mantissa - Nat.pow 2 52)

end Binary64

end RoundRobin
