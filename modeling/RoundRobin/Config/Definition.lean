import RoundRobin.Config.Archive
import RoundRobin.Config.Header
import RoundRobin.Source.Name

/-!
# Database definitions

A definition names the step, the time of the last update, the data sources
and the archives of a database. `Definition.validate` accepts it exactly
when the step is positive, there are data sources and archives, the names
are distinct, every archive is valid with a row length that fits in 64
bits, and no two archives share both consolidation function and steps. The
first failing check, in that order, is the refusal; an archive's own
refusal names its field under `archives[i]`.
-/

namespace RoundRobin

structure Definition where
  step : Int
  lastUpdate : Int
  sources : List SourceName
  archives : List ArchiveSpec
  deriving DecidableEq

namespace Definition

def header (d : Definition) : Header := ⟨d.step, d.lastUpdate⟩

def indexOf? (d : Definition) (name : String) : Option Nat :=
  d.sources.findIdx? (·.text == name)

def firstRepeat : List String → List String → Option String
  | _, [] => none
  | seen, n :: rest => if seen.contains n then some n else firstRepeat (n :: seen) rest

def validateArchives (step : Int) :
    Nat → List (Consolidation × Int) → List ArchiveSpec → Except ConfigError Unit
  | _, _, [] => .ok ()
  | i, seen, a :: rest => do
    (a.validate).mapError (ConfigError.underArchive i)
    if (a.arcStep step).isNone then
      throw (.invalidValue s!"archives[{i}].steps"
        s!"{a.steps} steps of {step}s overflow the archive step")
    if seen.contains (a.consolidation, a.steps) then
      throw (.duplicate "archive" s!"{a.consolidation.name}:{a.steps}")
    validateArchives step (i + 1) ((a.consolidation, a.steps) :: seen) rest

def validate (d : Definition) : Except ConfigError Unit := do
  d.header.validate
  if d.sources.isEmpty then throw (.missingField "data_sources")
  if d.archives.isEmpty then throw (.missingField "archives")
  if let some n := firstRepeat [] (d.sources.map (·.text)) then
    throw (.duplicate "data source" n)
  validateArchives d.step 0 [] d.archives

def archiveJson (a : ArchiveSpec) : Json :=
  .obj [("consol_fun", .str a.consolidation.name), ("xff", .double a.xff),
    ("steps", .int a.steps), ("rows", .int a.rows)]

def toJson (d : Definition) : Json :=
  .obj [("step", .int d.step), ("last_update_time", .int d.lastUpdate),
    ("data_sources", .arr (d.sources.map SourceName.toJson)),
    ("archives", .arr (d.archives.map archiveJson))]

def toJsonText (d : Definition) : String := d.toJson.pretty 0

end Definition

end RoundRobin
