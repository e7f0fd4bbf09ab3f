import RoundRobin.Json.Value
import RoundRobin.Text.Blank

/-!
# Logging options

A host chooses how much is logged and in which form. Levels and formats are
read from words after trimming blanks and lowering ASCII letters, with a few
aliases (`warning`, `none`, `text`, `pretty`, `json`); an unknown word is
refused with the normalised word. The options default to level `info`,
human-readable lines and timestamps.
-/

namespace RoundRobin

/-- The least severity that is logged; `off` logs nothing. -/
inductive LogLevel where
  | trace
  | debug
  | info
  | warn
  | error
  | off
  deriving DecidableEq, Inhabited

inductive LogFormat where
  | human
  | jsonl
  deriving DecidableEq, Inhabited

def normalWord (s : String) : String := String.ofList ((trimBlank s).toList.map Char.toLower)

namespace LogLevel

def name : LogLevel → String
  | .trace => "trace"
  | .debug => "debug"
  | .info => "info"
  | .warn => "warn"
  | .error => "error"
  | .off => "off"

def ofText (s : String) : Except String LogLevel :=
  match normalWord s with
  | "trace" => .ok .trace
  | "debug" => .ok .debug
  | "info" => .ok .info
  | "warn" | "warning" => .ok .warn
  | "error" => .ok .error
  | "off" | "none" => .ok .off
  | other => .error s!"unknown log level: {other}"

end LogLevel

namespace LogFormat

def name : LogFormat → String
  | .human => "human"
  | .jsonl => "jsonl"

def ofText (s : String) : Except String LogFormat :=
  match normalWord s with
  | "human" | "text" | "pretty" => .ok .human
  | "jsonl" | "json" => .ok .jsonl
  | other => .error s!"unknown log format: {other}"

end LogFormat

structure LogOptions where
  level : LogLevel
  format : LogFormat
  /-- Whether human-readable lines start with a timestamp. -/
  timestamps : Bool
  deriving DecidableEq

namespace LogOptions

def default : LogOptions := ⟨.info, .human, true⟩

def ofWords (level format : Option String) : Except String LogOptions := do
  let mut o := default
  if let some w := level then o := { o with level := ← LogLevel.ofText w }
  if let some w := format then o := { o with format := ← LogFormat.ofText w }
  return o

def directive (o : LogOptions) : String := "rrd_core=" ++ o.level.name

def toJson (o : LogOptions) : Json :=
  .obj [("level", .str o.level.name), ("format", .str o.format.name),
    ("timestamps", .bool o.timestamps)]

end LogOptions

end RoundRobin
