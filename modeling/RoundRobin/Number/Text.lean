import RoundRobin.Number.Notation
import RoundRobin.Number.Reading
import RoundRobin.Text.Blank

/-!
# The texts of stored values

Stored values have two texts. The export text has eleven significant digits,
rounded half to even, in scientific form with an upper-case `E` and at least
two exponent digits (`4.2500000000E01`). The diagnostic text is the shortest
decimal that reads back, positional for zero and for magnitudes from `1e-3`
below `1e7` (`42.5`, `0.001`), scientific otherwise (`1.0E7`, `1.5E-4`);
either keeps a `.0` after a lone digit. Both write `NaN`, `Infinity` and
`-Infinity` for the non-finite values.

`Binary64.readText` reads either text back, and the spellings `U` and `UNKN`
of an unknown value, after trimming blanks.
-/

namespace RoundRobin

/-- Export text: eleven significant digits, `E`, two exponent digits at least. -/
def Notation.export : Notation :=
  { placement := .scientific, integerPoint := false, mantissaPoint := false,
    exponentMark := "E", exponentPlus := false, exponentWidth := 2, tie := .up,
    nanText := "NaN", infinityText := "Infinity" }

/-- Diagnostic text: shortest digits, positional for exponents from -3 to 6. -/
def Notation.diagnostic : Notation :=
  { placement := .positionalWithin (-3) 6, integerPoint := true, mantissaPoint := true,
    exponentMark := "E", exponentPlus := false, exponentWidth := 1, tie := .up,
    nanText := "NaN", infinityText := "Infinity" }

namespace Binary64

def exportDigits : Nat := 11

def exportText (x : Binary64) : String := Notation.export.fixed exportDigits x

def diagnosticText (x : Binary64) : String := Notation.diagnostic.shortest x

/-- A text that is not the text of a value; it keeps the text as given. -/
structure TextError where
  text : String
  deriving DecidableEq

def TextError.message (e : TextError) : String := s!"invalid number text: '{e.text}'"

/-- Reads a stored value's text. The fixed spellings are checked first, then
the general grammar of `Binary64.ofText?`; the error quotes the untrimmed text. -/
def readText (text : String) : Except TextError Binary64 :=
  let t := trimBlank text
  if t == "NaN" || t == "nan" || t == "U" || t == "UNKN" then .ok nan
  else if t == "Infinity" || t == "+Infinity" || t == "inf" || t == "+inf" then .ok (infinity false)
  else if t == "-Infinity" || t == "-inf" then .ok (infinity true)
  else
    match ofText? t with
    | some v => .ok v
    | none => .error ⟨text⟩

end Binary64

end RoundRobin
