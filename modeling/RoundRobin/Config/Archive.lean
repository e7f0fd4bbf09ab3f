import RoundRobin.Config.Consolidation
import RoundRobin.Number.Notation
import RoundRobin.Number.Signed

/-!
# Archive specifications

An archive keeps `rows` consolidated values, each combining `steps` primary
steps by its consolidation function. `xff` is the fraction of unknown primary
values a row tolerates: it lies in `[0, 1)`, so a negative zero passes and a
NaN does not. The checks run in the order consolidation, `xff`, `steps`,
`rows`.

A refused `xff` is quoted in plain decimal notation, which never uses an
exponent: `1`, `-0.1`, `NaN`, `inf`.
-/

namespace RoundRobin

def Notation.plain : Notation :=
  { placement := .positional, integerPoint := false, mantissaPoint := false,
    exponentMark := "e", exponentPlus := false, exponentWidth := 1, tie := .up,
    nanText := "NaN", infinityText := "inf" }

/-- Whether a double lies in `[0, 1)`; zeros of both signs do. -/
def Binary64.inUnitInterval (x : Binary64) : Bool :=
  match x.shape with
  | .finite negative m e => m == 0 || (!negative && m * Nat.pow 2 e.toNat < Nat.pow 2 (-e).toNat)
  | _ => false

structure ArchiveSpec where
  consolidation : Consolidation
  xff : Binary64
  steps : Int
  rows : Int
  deriving DecidableEq

namespace ArchiveSpec

def defaultXff : Binary64 := ⟨0x3fe0000000000000⟩

def validate (a : ArchiveSpec) : Except ConfigError Unit :=
  if !a.xff.inUnitInterval then
    .error (.invalidValue "xff" ("Must be in [0, 1), got " ++ Notation.plain.shortest a.xff))
  else if a.steps < 1 then .error (.invalidValue "steps" s!"Must be at least 1, got {a.steps}")
  else if a.rows < 1 then .error (.invalidValue "rows" s!"Must be at least 1, got {a.rows}")
  else .ok ()

def make (consolidation : Consolidation) (xff : Binary64) (steps rows : Int) :
    Except ConfigError ArchiveSpec :=
  let a : ArchiveSpec := ⟨consolidation, xff, steps, rows⟩
  a.validate.map fun _ => a

def arcStep (a : ArchiveSpec) (step : Int) : Option Int := Signed64.checkedMul a.steps step

end ArchiveSpec

end RoundRobin
