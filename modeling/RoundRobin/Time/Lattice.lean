import RoundRobin.Number.Signed

/-!
# Step boundaries

Times are whole seconds. `Lattice.floor t step` is the last multiple of a
positive `step` at or before `t`, unless that multiple lies below the 64-bit
range. `Lattice.unknownSteps` counts the steps between the archive-step
boundary and the step boundary at or before a time: a fresh archive state
starts with that many unknown primary values.
-/

namespace RoundRobin

namespace Lattice

/-- The last multiple of `step` at or before `t`, for a positive step, when
it is not below the 64-bit range. -/
def floor (t step : Int) : Option Int :=
  if step ≤ 0 then none
  else
    let r := t - t % step
    if r < Signed64.min then none else some r

/-- Timing that cannot seed an archive state. -/
structure TimingError where
  step : Int
  arcStep : Int
  deriving DecidableEq

def TimingError.message (e : TimingError) : String :=
  s!"invalid archive timing: step={e.step}, arc_step={e.arcStep}"

/-- The number of primary steps from the archive-step boundary at or before
`t` to the step boundary at or before it. Refused unless both steps are
positive, the archive step is a multiple of the step, and both boundaries
are in range. -/
def unknownSteps (step arcStep t : Int) : Except TimingError Nat :=
  if step ≤ 0 ∨ arcStep ≤ 0 ∨ arcStep % step ≠ 0 then .error ⟨step, arcStep⟩
  else
    match floor t step, floor t arcStep with
    | some a, some b => .ok ((a - b) / step).natAbs
    | _, _ => .error ⟨step, arcStep⟩

end Lattice

end RoundRobin
