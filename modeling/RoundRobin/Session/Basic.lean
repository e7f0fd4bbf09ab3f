import RoundRobin.Pending.Row

/-!
# Store sessions

A session holds a store with its allocator, the pending points made so far
and the pending rows made so far, each list indexed from zero in order of
making. Steps act on these; a failed step answers with its failure and the
session goes on from the state the failure left.
-/

namespace RoundRobin

inductive PointAction where
  | getValue
  | getCount
  | setValue (x : Binary64)
  | setCount (n : Nat)
  | snapshot
  | dump
  | exportAs (name : String)
  deriving DecidableEq

inductive Step where
  | createPoint (step arcStep lastUpdate : Int)
  | reopenPoint
  | seedPoint (step arcStep lastUpdate : Int) (valueCell countCell : Nat)
  | bindPoint (valueCell countCell : Nat)
  | onPoint (index : Nat) (action : PointAction)
  | createRow (step lastUpdate : Int) (consolidation : String) (xff : Binary64) (steps rows : Int)
      (names : List String)
  | reopenRow (step lastUpdate : Int) (consolidation : String) (xff : Binary64) (steps rows : Int)
      (names : List String)
  | createRows (definition : String)
  | reopenRows (definition : String)
  | onRow (index : Nat) (name : String) (action : PointAction)
  | exportRow (index : Nat)
  | dumpRow (index : Nat)
  | describeRow (index : Nat)
  | position
  | resetAllocator (offset : Nat)
  | allocate (size : Nat)
  | size
  | bytes
  | writeBytes (offset : Nat) (data : List UInt8)
  | readBytes (offset len : Nat)
  | readDouble (offset : Nat)
  | readLong (offset : Nat)
  | writeDouble (offset : Nat) (x : Binary64)
  | writeLong (offset : Nat) (n : Int)
  | sync
  | reopen (replacement : Option (List UInt8))

structure RowInfo where
  length : Nat
  arcStep : Int
  header : Header
  spec : ArchiveSpec
  names : List String
  deriving DecidableEq

inductive Answer where
  | point (index position : Nat)
  | value (x : Binary64)
  | count (n : Nat)
  | done
  | snapshot (s : Snapshot)
  | dump (text : String)
  | exported (xml json : String)
  | row (index position : Nat)
  | rows (indices : List Nat) (position : Nat)
  | rowExported (xml json pretty : String)
  | rowInfo (info : RowInfo)
  | position (p : Nat)
  | allocated (offset position : Nat)
  | size (n : Nat)
  | bytes (data : List UInt8)
  | long (n : Int)
  deriving DecidableEq

inductive SessionError where
  | state (e : StateError)
  | name (e : NameError)
  | config (e : ConfigError)
  /-- A step the session refuses: an unknown index. -/
  | refused (reason : String)
  deriving DecidableEq

structure Session where
  storage : Storage
  points : List PendingPoint
  rows : List PendingRow
  deriving DecidableEq

namespace Session

def start (backing : Backing) (initial : List UInt8) : Session :=
  ⟨⟨⟨backing, initial⟩, ⟨0⟩⟩, [], []⟩

end Session

end RoundRobin
