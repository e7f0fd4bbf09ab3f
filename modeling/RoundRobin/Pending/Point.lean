import RoundRobin.Store.Run
import RoundRobin.Pending.Error
import RoundRobin.Number.Text
import RoundRobin.Export.Tree

/-!
# Pending points

A pending point is the consolidated value of one data source that an archive
row is still collecting: two cells of a store, the accumulated value and the
count of unknown primary steps folded into it. The count is stored as a
64-bit signed integer, so a count from `2 ^ 63` on cannot be stored and a
negative stored count cannot be read.

A fresh point is seeded for its archive: the count first, with the unknown
steps between the archive-step boundary and the step boundary at or before
the last update, then NaN as the accumulated value. Its snapshot reads the
value, then the count.
-/

namespace RoundRobin

structure PendingPoint where
  valueCell : Nat
  countCell : Nat
  deriving DecidableEq

structure Snapshot where
  value : Binary64
  count : Nat
  deriving DecidableEq

def Snapshot.toJson (s : Snapshot) : Json :=
  .obj [("accumulated_value", .double s.value), ("unknown_step_count", .int s.count)]

namespace PendingPoint

/-- A count as stored, refused from `2 ^ 63` on. -/
def storedCount (n : Nat) : Except StoreError Int :=
  if n < Nat.pow 2 63 then .ok n else .error (.invalidValue s!"unknown step count {n} too large")

def value (p : PendingPoint) : StoreM Binary64 := StoreM.readDouble p.valueCell

def setValue (p : PendingPoint) (x : Binary64) : StoreM Unit := StoreM.writeDouble p.valueCell x

def count (p : PendingPoint) : StoreM Nat := do
  let n ← StoreM.readLong p.countCell
  if n < 0 then throw (.invalidValue s!"negative unknown step count {n}") else return n.toNat

def setCount (p : PendingPoint) (n : Nat) : StoreM Unit := do
  StoreM.writeLong p.countCell (← StoreM.ofExcept (storedCount n))

def snapshot (p : PendingPoint) : StoreM Snapshot := do
  let v ← p.value
  let c ← p.count
  return ⟨v, c⟩

/-- A `ds` node labelled with the name, holding the export text of the value
and the count. -/
def exportTree (p : PendingPoint) (name : SourceName) : StoreM ExportTree := do
  let s ← p.snapshot
  return .node "ds" (some name)
    [.text "value" none s.value.exportText, .text "unknown_datapoints" none (toString s.count)]

def dump (p : PendingPoint) : StoreM String := do
  let s ← p.snapshot
  return "accumValue:" ++ s.value.diagnosticText ++ s!" nanSteps:{s.count}"

def seed (p : PendingPoint) (count : Nat) : StoreM Unit := do
  p.setCount count
  p.setValue Binary64.nan

end PendingPoint

/-- Building archive state: store writes and allocations stay after a failure. -/
abbrev Seeding := ExceptT StateError (StateM Storage)

namespace Seeding

def onStore (x : StoreM α) : Seeding α := do
  let st ← get
  let (r, s) := x.runOn st.store
  set { st with store := s }
  match r with
  | .ok a => return a
  | .error e => throw (.store e)

def allocate (size : Nat) : Seeding Nat := do
  let st ← get
  match st.allocator.allocate size with
  | some (offset, a) =>
    set { st with allocator := a }
    return offset
  | none => throw .overflow

def ofTiming (r : Except Lattice.TimingError α) : Seeding α :=
  match r with
  | .ok a => pure a
  | .error e => throw (.timing e)

def runOn (x : Seeding α) (st : Storage) : Except StateError α × Storage := (ExceptT.run x).run st

end Seeding

namespace PendingPoint

def seedAt (valueCell countCell : Nat) (step arcStep lastUpdate : Int) : Seeding PendingPoint := do
  let k ← Seeding.ofTiming (Lattice.unknownSteps step arcStep lastUpdate)
  let p : PendingPoint := ⟨valueCell, countCell⟩
  Seeding.onStore (p.seed k)
  return p

/-- Two fresh cells, seeded; the timing is checked before anything is
allocated or written. -/
def create (step arcStep lastUpdate : Int) : Seeding PendingPoint := do
  let k ← Seeding.ofTiming (Lattice.unknownSteps step arcStep lastUpdate)
  let v ← Seeding.allocate cellSize
  let c ← Seeding.allocate cellSize
  let p : PendingPoint := ⟨v, c⟩
  Seeding.onStore (p.seed k)
  return p

def reopen : Seeding PendingPoint := do
  let v ← Seeding.allocate cellSize
  let c ← Seeding.allocate cellSize
  return ⟨v, c⟩

end PendingPoint

end RoundRobin
