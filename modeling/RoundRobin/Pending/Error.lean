import RoundRobin.Store.Error
import RoundRobin.Time.Lattice
import RoundRobin.Config.Error

/-!
# Why building or addressing archive state failed

Store faults pass through with their own messages; the others are timing
that cannot seed a state, a refused configuration, a data source that an
archive does not have, and an allocator position that overflows 64 bits.
-/

namespace RoundRobin

inductive StateError where
  | store (e : StoreError)
  | timing (e : Lattice.TimingError)
  | config (e : ConfigError)
  | unknownSource (name : String)
  | overflow
  deriving DecidableEq

def StateError.message : StateError → String
  | .store e => e.message
  | .timing e => e.message
  | .config e => "configuration error: " ++ e.message
  | .unknownSource name => "unknown data source: " ++ name
  | .overflow => "attempt to add with overflow"

end RoundRobin
