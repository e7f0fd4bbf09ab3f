import RoundRobin.Json.Value
import RoundRobin.Text.Escaped

/-!
# Why a JSON text could not be read

A `ReadError` is a `ReadFault` and, for faults found at a place in the text,
the line and column there (lines count from one, columns count bytes since
the last line feed). Syntax faults always have a place. Faults about the data
(a value of the wrong kind, a missing field) are found away from the text and
get the place where the enclosing value ends, or none at the top.
-/

namespace RoundRobin

namespace Json

/-- The kind of value found where another was expected. -/
inductive Unexpected where
  | null
  | bool (b : Bool)
  | unsigned (n : Nat)
  | signed (n : Int)
  | double (x : Binary64)
  | str (s : String)
  | seq
  | map
  | unitVariant

def Unexpected.describe : Unexpected → String
  | .null => "null"
  | .bool b => s!"boolean `{b}`"
  | .unsigned n => s!"integer `{n}`"
  | .signed n => s!"integer `{n}`"
  | .double x => "floating point `" ++ Notation.json.shortest x ++ "`"
  | .str s => "string " ++ escapedQuote s
  | .seq => "sequence"
  | .map => "map"
  | .unitVariant => "unit variant"

inductive ReadFault where
  | eofWhileParsingList
  | eofWhileParsingObject
  | eofWhileParsingString
  | eofWhileParsingValue
  | expectedColon
  | expectedListCommaOrEnd
  | expectedObjectCommaOrEnd
  | expectedSomeIdent
  | expectedSomeValue
  | invalidEscape
  | invalidNumber
  | numberOutOfRange
  | controlCharacterWhileParsingString
  | keyMustBeAString
  | loneLeadingSurrogateInHexEscape
  | trailingComma
  | trailingCharacters
  | unexpectedEndOfHexEscape
  /-- A value of another kind than the one expected. -/
  | invalidType (found : Unexpected) (expected : String)
  /-- A value of the right kind but out of range. -/
  | invalidValue (found : Unexpected) (expected : String)
  /-- A sequence with too few elements for a record. -/
  | invalidLength (length : Nat) (expected : String)
  | unknownVariant (name : String) (expected : List String)
  | missingField (name : String)
  | duplicateField (name : String)
  /-- A fault reported by the value's own check, with its text. -/
  | custom (message : String)

def oneOf : List String → String
  | [] => "there are no variants"
  | [a] => s!"expected `{a}`"
  | [a, b] => s!"expected `{a}` or `{b}`"
  | names => "expected one of " ++ ", ".intercalate (names.map fun n => s!"`{n}`")

def ReadFault.message : ReadFault → String
  | .eofWhileParsingList => "EOF while parsing a list"
  | .eofWhileParsingObject => "EOF while parsing an object"
  | .eofWhileParsingString => "EOF while parsing a string"
  | .eofWhileParsingValue => "EOF while parsing a value"
  | .expectedColon => "expected `:`"
  | .expectedListCommaOrEnd => "expected `,` or `]`"
  | .expectedObjectCommaOrEnd => "expected `,` or `\x7d`"
  | .expectedSomeIdent => "expected ident"
  | .expectedSomeValue => "expected value"
  | .invalidEscape => "invalid escape"
  | .invalidNumber => "invalid number"
  | .numberOutOfRange => "number out of range"
  | .controlCharacterWhileParsingString =>
    "control character (\\u0000-\\u001F) found while parsing a string"
  | .keyMustBeAString => "key must be a string"
  | .loneLeadingSurrogateInHexEscape => "lone leading surrogate in hex escape"
  | .trailingComma => "trailing comma"
  | .trailingCharacters => "trailing characters"
  | .unexpectedEndOfHexEscape => "unexpected end of hex escape"
  | .invalidType found expected => s!"invalid type: {found.describe}, expected {expected}"
  | .invalidValue found expected => s!"invalid value: {found.describe}, expected {expected}"
  | .invalidLength n expected => s!"invalid length {n}, expected {expected}"
  | .unknownVariant name expected => s!"unknown variant `{name}`, " ++ oneOf expected
  | .missingField name => s!"missing field `{name}`"
  | .duplicateField name => s!"duplicate field `{name}`"
  | .custom message => message

/-- A fault and the line and column where it was found, if it has a place. -/
structure ReadError where
  fault : ReadFault
  place : Option (Nat × Nat)

def ReadError.message (e : ReadError) : String :=
  match e.place with
  | none => e.fault.message
  | some (line, column) => e.fault.message ++ s!" at line {line} column {column}"

end Json

end RoundRobin
