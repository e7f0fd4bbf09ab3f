import RoundRobin.Pending.Point
import RoundRobin.Config.Reading

/-!
# Pending rows

The pending row of an archive holds one pending point per data source, in
the order of the names. Cells are laid out archive by archive and, within an
archive, name by name, each point taking a value cell and then a count cell,
so reopening walks the same order and finds the same cells.

Creating a row checks the header, then the archive, then that the row
length fits in 64 bits (the refusal quoting the length pinned to the range),
and then seeds a point per name; points seeded before a failure stay in the
store. Looking a name up finds its first point.
-/

namespace RoundRobin

/-- The pending points of one archive, with its header and specification. -/
structure PendingRow where
  header : Header
  spec : ArchiveSpec
  entries : List (SourceName × PendingPoint)
  deriving DecidableEq

namespace PendingRow

def arcStep (r : PendingRow) : Int := (r.spec.arcStep r.header.step).getD 0

def ofConfig (r : Except ConfigError α) : Seeding α :=
  match r with
  | .ok a => pure a
  | .error e => throw (.config e)

def create (header : Header) (spec : ArchiveSpec) (names : List SourceName) : Seeding PendingRow := do
  ofConfig header.validate
  ofConfig spec.validate
  let some arc := spec.arcStep header.step
    | throw (.timing ⟨header.step, Signed64.saturatingMul spec.steps header.step⟩)
  let entries ← names.mapM fun n => do
    let p ← PendingPoint.create header.step arc header.lastUpdate
    return (n, p)
  return ⟨header, spec, entries⟩

def reopen (header : Header) (spec : ArchiveSpec) (names : List SourceName) : Seeding PendingRow := do
  let entries ← names.mapM fun n => do return (n, ← PendingPoint.reopen)
  return ⟨header, spec, entries⟩

def createAll (d : Definition) : Seeding (List PendingRow) :=
  d.archives.mapM fun a => create d.header a d.sources

def reopenAll (d : Definition) : Seeding (List PendingRow) :=
  d.archives.mapM fun a => reopen d.header a d.sources

def point (r : PendingRow) (name : String) : Except StateError PendingPoint :=
  match r.entries.find? (·.1.text == name) with
  | some (_, p) => .ok p
  | none => .error (.unknownSource name)

def exportTree (r : PendingRow) : StoreM ExportTree := do
  let children ← r.entries.mapM fun (n, p) => p.exportTree n
  return .node "cdp_prep" none children

def dump (r : PendingRow) : StoreM String := do
  let lines ← r.entries.mapM fun (n, p) => do return n.text ++ " " ++ (← p.dump)
  return "\n".intercalate lines

end PendingRow

end RoundRobin
