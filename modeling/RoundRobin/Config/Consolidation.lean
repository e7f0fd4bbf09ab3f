import RoundRobin.Config.Error
import RoundRobin.Text.Upper

/-!
# Consolidation functions

An archive row combines the primary values of its steps by one of four
functions. Its name is the upper-case word; reading a name ignores letter
case in the full Unicode sense, so `average`, `Last` and `laſt` are read.
-/

namespace RoundRobin

/-- How the primary values of an archive row are combined. -/
inductive Consolidation where
  | average
  | min
  | max
  | last
  deriving DecidableEq, Inhabited

namespace Consolidation

def all : List Consolidation := [.average, .min, .max, .last]

def name : Consolidation → String
  | .average => "AVERAGE"
  | .min => "MIN"
  | .max => "MAX"
  | .last => "LAST"

def names : List String := all.map name

def ofIndex (k : Nat) : Consolidation := all.getD k .average

def ofText (s : String) : Except ConfigError Consolidation :=
  match (upperAscii? s).bind fun u => all.find? (·.name == u) with
  | some f => .ok f
  | none => .error (.invalidValue "consol_fun" s!"unknown consolidation function: {s}")

end Consolidation

end RoundRobin
