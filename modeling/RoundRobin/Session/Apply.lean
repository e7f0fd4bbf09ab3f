import RoundRobin.Session.Basic

/-!
# Applying a step to a session

`Session.apply` gives the answer of one step and the session after it.
Points and rows are found by index, and a row's points by name. Raw reads
and writes go straight to the store; `reopen` keeps or replaces the bytes
and starts over with no points, no rows and the allocator at zero.
-/

namespace RoundRobin

namespace Session

/-- A step: its failure stays in the session's state like its effects. -/
abbrev StepM := ExceptT SessionError (StateM Session)

def refuse (reason : String) : StepM α := throw (.refused reason)

def seeding (x : Seeding α) : StepM α := do
  let s ← get
  let (r, st) := x.runOn s.storage
  set { s with storage := st }
  match r with
  | .ok a => return a
  | .error e => throw (.state e)

def storing (x : StoreM α) : StepM α := seeding (Seeding.onStore x)

def ofConfig (r : Except ConfigError α) : StepM α :=
  match r with
  | .ok a => return a
  | .error e => throw (.config e)

def ofState (r : Except StateError α) : StepM α :=
  match r with
  | .ok a => return a
  | .error e => throw (.state e)

def ofName (s : String) : StepM SourceName :=
  match SourceName.ofString s with
  | .ok n => return n
  | .error e => throw (.name e)

def currentPosition : StepM Nat := return (← get).storage.allocator.position

def pointAt (i : Nat) : StepM PendingPoint := do
  match (← get).points[i]? with
  | some p => return p
  | none => refuse "no such state"

def rowAt (i : Nat) : StepM PendingRow := do
  match (← get).rows[i]? with
  | some r => return r
  | none => refuse "no such archive"

def keepPoint (p : PendingPoint) : StepM Answer := do
  let s ← get
  set { s with points := s.points ++ [p] }
  return .point s.points.length (← currentPosition)

def keepRows (rs : List PendingRow) : StepM (List Nat) := do
  let s ← get
  set { s with rows := s.rows ++ rs }
  return (List.range rs.length).map (s.rows.length + ·)

def act (p : PendingPoint) : PointAction → StepM Answer
  | .getValue => return .value (← storing p.value)
  | .getCount => return .count (← storing p.count)
  | .setValue x => do
    storing (p.setValue x)
    return .done
  | .setCount n => do
    storing (p.setCount n)
    return .done
  | .snapshot => return .snapshot (← storing p.snapshot)
  | .dump => return .dump (← storing p.dump)
  | .exportAs name => do
    let n ← ofName name
    let t ← storing (p.exportTree n)
    return .exported t.toXml t.toJson.compact

def rowParts (step lastUpdate : Int) (consolidation : String) (xff : Binary64) (steps rows : Int)
    (names : List String) : StepM (Header × ArchiveSpec × List SourceName) := do
  let f ← ofConfig (Consolidation.ofText consolidation)
  let ns ← names.mapM ofName
  return (⟨step, lastUpdate⟩, ⟨f, xff, steps, rows⟩, ns)

def apply : Step → StepM Answer
  | .createPoint step arcStep lastUpdate => do
    keepPoint (← seeding (PendingPoint.create step arcStep lastUpdate))
  | .reopenPoint => do keepPoint (← seeding PendingPoint.reopen)
  | .seedPoint step arcStep lastUpdate valueCell countCell => do
    keepPoint (← seeding (PendingPoint.seedAt valueCell countCell step arcStep lastUpdate))
  | .bindPoint valueCell countCell => keepPoint ⟨valueCell, countCell⟩
  | .onPoint i action => do act (← pointAt i) action
  | .createRow step lastUpdate consolidation xff steps rows names => do
    let (h, a, ns) ← rowParts step lastUpdate consolidation xff steps rows names
    let r ← seeding (PendingRow.create h a ns)
    let is ← keepRows [r]
    return .row (is.headD 0) (← currentPosition)
  | .reopenRow step lastUpdate consolidation xff steps rows names => do
    let (h, a, ns) ← rowParts step lastUpdate consolidation xff steps rows names
    let r ← seeding (PendingRow.reopen h a ns)
    let is ← keepRows [r]
    return .row (is.headD 0) (← currentPosition)
  | .createRows text => do
    let d ← ofConfig (Definition.ofText text)
    let is ← keepRows (← seeding (PendingRow.createAll d))
    return .rows is (← currentPosition)
  | .reopenRows text => do
    let d ← ofConfig (Definition.ofText text)
    let is ← keepRows (← seeding (PendingRow.reopenAll d))
    return .rows is (← currentPosition)
  | .onRow i name action => do
    let r ← rowAt i
    act (← ofState (r.point name)) action
  | .exportRow i => do
    let t ← storing (← rowAt i).exportTree
    return .rowExported t.toXml t.toJson.compact (t.toJson.pretty 0)
  | .dumpRow i => do return .dump (← storing (← rowAt i).dump)
  | .describeRow i => do
    let r ← rowAt i
    return .rowInfo ⟨r.entries.length, r.arcStep, r.header, r.spec, r.entries.map (·.1.text)⟩
  | .position => return .position (← currentPosition)
  | .resetAllocator offset => do
    modify fun s => { s with storage := { s.storage with allocator := Allocator.startingAt offset } }
    return .position offset
  | .allocate size => do
    let offset ← seeding (Seeding.allocate size)
    return .allocated offset (← currentPosition)
  | .size => return .size (← get).storage.store.size
  | .bytes => return .bytes (← get).storage.store.bytes
  | .writeBytes offset data => do
    storing (StoreM.update (·.write offset data))
    return .done
  | .readBytes offset len => return .bytes (← storing (do StoreM.ofExcept ((← get).read offset len)))
  | .readDouble offset => return .value (← storing (StoreM.readDouble offset))
  | .readLong offset => return .long (← storing (StoreM.readLong offset))
  | .writeDouble offset x => do
    storing (StoreM.writeDouble offset x)
    return .done
  | .writeLong offset n => do
    storing (StoreM.writeLong offset n)
    return .done
  | .sync => return .done
  | .reopen replacement => do
    let s ← get
    let bytes := replacement.getD s.storage.store.bytes
    set (start s.storage.store.backing bytes)
    return .size bytes.length

def answers (s : Session) : List Step → List (Except SessionError Answer)
  | [] => []
  | step :: rest =>
    let (r, s') := (ExceptT.run (apply step)).run s
    r :: answers s' rest

end Session

end RoundRobin
