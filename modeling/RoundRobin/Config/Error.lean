/-!
# Why a definition was refused

Each refusal has a stable numeric code: 60 for a definition that could not be
loaded, 61 for text that could not be parsed, 64 for a required part that is
missing, 65 for a value out of its range, and 67 for a repeated entry.
-/

namespace RoundRobin

inductive ConfigError where
  | io (detail : String)
  | parse (detail : String)
  | missingField (field : String)
  | invalidValue (field message : String)
  | duplicate (kind name : String)
  deriving DecidableEq

namespace ConfigError

def code : ConfigError → Nat
  | .io _ => 60
  | .parse _ => 61
  | .missingField _ => 64
  | .invalidValue .. => 65
  | .duplicate .. => 67

def message : ConfigError → String
  | .io detail => s!"I/O error: {detail}"
  | .parse detail => s!"Parse error: {detail}"
  | .missingField field => s!"Missing required field: {field}"
  | .invalidValue field message => s!"Invalid value for {field}: {message}"
  | .duplicate kind name => s!"Duplicate {kind}: {name}"

def underArchive (i : Nat) : ConfigError → ConfigError
  | .invalidValue field message => .invalidValue s!"archives[{i}].{field}" message
  | e => e

end ConfigError

end RoundRobin
