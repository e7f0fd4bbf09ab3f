import RoundRobin.Store.Bytes

/-!
# Sequential allocation

Cells are handed out in order from a position that only grows. Allocating
the same sizes in the same order from the same start gives the same offsets,
which is how a reopened store finds its cells again. The position is a
64-bit offset: an allocation whose end would not fit is an arithmetic
overflow and hands out nothing.
-/

namespace RoundRobin

/-- The offset the next allocation receives. -/
structure Allocator where
  position : Nat
  deriving DecidableEq

namespace Allocator

def startingAt (offset : Nat) : Allocator := ⟨offset⟩

/-- Reserves `size` bytes: their offset and the allocator after them, unless
the new position overflows 64 bits. -/
def allocate (a : Allocator) (size : Nat) : Option (Nat × Allocator) :=
  if a.position + size ≤ ByteStore.offsetMax then some (a.position, ⟨a.position + size⟩) else none

end Allocator

end RoundRobin
