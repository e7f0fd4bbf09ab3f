import RoundRobin.Config.Definition

/-!
# Reading definitions from JSON

A definition is read from a JSON record with the fields `step`,
`last_update_time`, `data_sources` and `archives`; an archive from a record
with `consol_fun`, `xff`, `steps` and `rows`, where a missing `xff` is one
half. Consolidation functions are written by their exact upper-case names.
`Definition.ofText` reads, then validates; a text that cannot be read is a
parse refusal quoting the reader's message.
-/

namespace RoundRobin

open Json.Reader in
def Consolidation.reader : Json.Reader Consolidation :=
  readEnum Consolidation.names fun k => .unit (Consolidation.ofIndex k)

structure ArchiveDraft where
  consolidation : Option Consolidation
  xff : Option Binary64
  steps : Option Int
  rows : Option Int

open Json.Reader in
def ArchiveSpec.shape : RecordShape ArchiveSpec ArchiveDraft where
  name := "ArchiveDef"
  fields := ["consol_fun", "xff", "steps", "rows"]
  empty := ⟨none, none, none, none⟩
  filled d k :=
    match k with
    | 0 => d.consolidation.isSome
    | 1 => d.xff.isSome
    | 2 => d.steps.isSome
    | _ => d.rows.isSome
  readField k d :=
    match k with
    | 0 => return { d with consolidation := some (← Consolidation.reader) }
    | 1 => return { d with xff := some (← readDouble) }
    | 2 => return { d with steps := some (← readInt64) }
    | _ => return { d with rows := some (← readInt64) }
  fallback k d := if k == 1 then some { d with xff := some ArchiveSpec.defaultXff } else none
  build d :=
    match d.consolidation, d.xff, d.steps, d.rows with
    | some c, some x, some s, some r => some ⟨c, x, s, r⟩
    | _, _, _, _ => none

structure DefinitionDraft where
  step : Option Int
  lastUpdate : Option Int
  sources : Option (List SourceName)
  archives : Option (List ArchiveSpec)

open Json.Reader in
def Definition.shape : RecordShape Definition DefinitionDraft where
  name := "DatabaseDef"
  fields := ["step", "last_update_time", "data_sources", "archives"]
  empty := ⟨none, none, none, none⟩
  filled d k :=
    match k with
    | 0 => d.step.isSome
    | 1 => d.lastUpdate.isSome
    | 2 => d.sources.isSome
    | _ => d.archives.isSome
  readField k d :=
    match k with
    | 0 => return { d with step := some (← readInt64) }
    | 1 => return { d with lastUpdate := some (← readInt64) }
    | 2 => return { d with sources := some (← readList SourceName.reader) }
    | _ => return { d with archives := some (← readList (readRecord ArchiveSpec.shape)) }
  fallback _ _ := none
  build d :=
    match d.step, d.lastUpdate, d.sources, d.archives with
    | some s, some t, some n, some a => some ⟨s, t, n, a⟩
    | _, _, _, _ => none

namespace Definition

def ofJsonText (text : String) : Except Json.ReadError Definition :=
  Json.Reader.readAll (Json.Reader.readRecord Definition.shape) text

def ofText (text : String) : Except ConfigError Definition := do
  let d ← (ofJsonText text).mapError fun e => .parse ("Invalid JSON: " ++ e.message)
  d.validate
  return d

end Definition

end RoundRobin
