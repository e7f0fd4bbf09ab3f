/-!
# The range of 64-bit signed integers

Integers of the library are mathematical `Int`s kept within the 64-bit
signed range. Products that leave the range are refused (`checkedMul`) or
pinned to its nearer end (`saturatingMul`).
-/

namespace RoundRobin

namespace Signed64

def min : Int := -Int.pow 2 63

def max : Int := Int.pow 2 63 - 1

def fits (n : Int) : Bool := min ≤ n && n ≤ max

def checkedMul (a b : Int) : Option Int := if fits (a * b) then some (a * b) else none

def saturatingMul (a b : Int) : Int := Max.max min (Min.min max (a * b))

end Signed64

end RoundRobin
