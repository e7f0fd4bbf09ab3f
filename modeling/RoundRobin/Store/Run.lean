import RoundRobin.Store.Cell
import RoundRobin.Store.Allocator

/-!
# Running store operations

`StoreM` runs reads and writes against a store. A failed operation keeps
every write made before it: a store has no transactions. `Storage` adds the
allocator, for operations that hand out cells.
-/

namespace RoundRobin

/-- Outcomes compare, so a run on fixed inputs can be decided. -/
instance decEqExcept {ε α : Type} [DecidableEq ε] [DecidableEq α] : DecidableEq (Except ε α)
  | .ok a, .ok b => decidable_of_iff (a = b) ⟨congrArg _, Except.ok.inj⟩
  | .error a, .error b => decidable_of_iff (a = b) ⟨congrArg _, Except.error.inj⟩
  | .ok _, .error _ => isFalse fun h => nomatch h
  | .error _, .ok _ => isFalse fun h => nomatch h

/-- Operations on a store; writes before a failure stay. -/
abbrev StoreM := ExceptT StoreError (StateM ByteStore)

namespace StoreM

def ofExcept (r : Except StoreError α) : StoreM α :=
  match r with
  | .ok a => pure a
  | .error e => throw e

def update (r : ByteStore → Except StoreError ByteStore) : StoreM Unit := do
  match r (← get) with
  | .ok s => set s
  | .error e => throw e

def readDouble (offset : Nat) : StoreM Binary64 := do ofExcept ((← get).readDouble offset)

def readLong (offset : Nat) : StoreM Int := do ofExcept ((← get).readLong offset)

def writeDouble (offset : Nat) (x : Binary64) : StoreM Unit := update (·.writeDouble offset x)

def writeLong (offset : Nat) (n : Int) : StoreM Unit := update (·.writeLong offset n)

def runOn (x : StoreM α) (s : ByteStore) : Except StoreError α × ByteStore :=
  (ExceptT.run x).run s

end StoreM

structure Storage where
  store : ByteStore
  allocator : Allocator
  deriving DecidableEq

end RoundRobin
