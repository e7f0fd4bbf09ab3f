import RoundRobin.Config.Error

/-!
# The database header

A database takes one primary value every `step` seconds and remembers when it
was last updated. The step must be positive.
-/

namespace RoundRobin

/-- Step length in seconds and the time of the last update. -/
structure Header where
  step : Int
  lastUpdate : Int
  deriving DecidableEq

namespace Header

def validate (h : Header) : Except ConfigError Unit :=
  if h.step ≤ 0 then .error (.invalidValue "step" s!"Must be positive, got {h.step}")
  else .ok ()

def make (step lastUpdate : Int) : Except ConfigError Header :=
  let h : Header := ⟨step, lastUpdate⟩
  h.validate.map fun _ => h

end Header

end RoundRobin
