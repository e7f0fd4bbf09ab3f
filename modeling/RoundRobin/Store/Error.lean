/-!
# Why a store access failed

A read past the end of a memory store is out of bounds. A file store reports
operating-system faults instead: a short read, a position it cannot seek to,
or a write past the largest file. A value read back may also lie outside its
field's domain.
-/

namespace RoundRobin

/-- Faults reported by the operating system for a file store. -/
inductive IoFault where
  /-- Fewer bytes than asked for were left before the end of the file. -/
  | shortRead
  /-- The position lies beyond the largest file the file system can hold. -/
  | invalidSeek
  /-- A write would end beyond the largest file. -/
  | fileTooLarge
  deriving DecidableEq

def IoFault.message : IoFault → String
  | .shortRead => "failed to fill whole buffer"
  | .invalidSeek => "Invalid argument (os error 22)"
  | .fileTooLarge => "File too large (os error 27)"

inductive StoreError where
  | io (fault : IoFault)
  | outOfBounds (offset len size : Nat)
  | poisoned
  | invalidValue (detail : String)
  deriving DecidableEq

def StoreError.message : StoreError → String
  | .io fault => "I/O error: " ++ fault.message
  | .outOfBounds offset len size =>
    s!"read of {len} bytes at offset {offset} exceeds backing size {size}"
  | .poisoned => "storage lock poisoned"
  | .invalidValue detail => "invalid persisted value: " ++ detail

end RoundRobin
