import RoundRobin.Number.Notation

/-!
# JSON values and their text

A `Json` value keeps its object members in the order given; a writer never
reorders them. Integers and doubles are distinct kinds of number. The compact
form has no blanks at all; the pretty form puts every member and element on a
line of its own, indented by two spaces per level, with `": "` after a key.

Strings escape the quote, the backslash and the control characters below
U+0020 (`\b`, `\f`, `\n`, `\r`, `\t` by name, the others as `\u00xx`); every
other character is written as it is. Doubles are written by `Notation.json`;
a NaN or an infinity, which JSON cannot hold, is written `null`.
-/

namespace RoundRobin

/-- Double layout of JSON text: shortest digits, ties to even, positional for
scientific exponents from -5 to 15 with `.0` on integers, else `1e-7` or
`1.25e+20`. -/
def Notation.json : Notation :=
  { placement := .positionalWithin (-5) 15, integerPoint := true, mantissaPoint := false,
    exponentMark := "e", exponentPlus := true, exponentWidth := 1, tie := .toEven,
    nanText := "null", infinityText := "null" }

/-- A JSON value; object members keep their order. -/
inductive Json where
  | null
  | bool (b : Bool)
  | int (n : Int)
  | double (x : Binary64)
  | str (s : String)
  | arr (items : List Json)
  | obj (members : List (String × Json))
  deriving Inhabited

namespace Json

def hexDigit (n : Nat) : Char :=
  if n < 10 then Char.ofNat (48 + n) else Char.ofNat (87 + n)

def escapeChar (c : Char) : List Char :=
  if c = '"' then ['\\', '"']
  else if c = '\\' then ['\\', '\\']
  else if c = '\n' then ['\\', 'n']
  else if c = '\r' then ['\\', 'r']
  else if c = '\t' then ['\\', 't']
  else if c.toNat = 8 then ['\\', 'b']
  else if c.toNat = 12 then ['\\', 'f']
  else if c.toNat < 0x20 then ['\\', 'u', '0', '0', hexDigit (c.toNat / 16), hexDigit (c.toNat % 16)]
  else [c]

def quote (s : String) : String :=
  String.ofList ('"' :: (s.toList.flatMap escapeChar ++ ['"']))

def doubleText (x : Binary64) : String :=
  if x.isFinite then Notation.json.shortest x else "null"

mutual
def compact : Json → String
  | .null => "null"
  | .bool b => if b then "true" else "false"
  | .int n => toString n
  | .double x => doubleText x
  | .str s => quote s
  | .arr items => "[" ++ compactItems items ++ "]"
  | .obj members => "\x7b" ++ compactMembers members ++ "\x7d"

def compactItems : List Json → String
  | [] => ""
  | [v] => compact v
  | v :: rest => compact v ++ "," ++ compactItems rest

def compactMembers : List (String × Json) → String
  | [] => ""
  | [(k, v)] => quote k ++ ":" ++ compact v
  | (k, v) :: rest => quote k ++ ":" ++ compact v ++ "," ++ compactMembers rest
end

def indent (level : Nat) : String := String.ofList (List.replicate (2 * level) ' ')

mutual
def pretty (level : Nat) : Json → String
  | .arr [] => "[]"
  | .obj [] => "\x7b\x7d"
  | .arr items => "[\n" ++ prettyItems (level + 1) items ++ "\n" ++ indent level ++ "]"
  | .obj members => "\x7b\n" ++ prettyMembers (level + 1) members ++ "\n" ++ indent level ++ "\x7d"
  | v => compact v

def prettyItems (level : Nat) : List Json → String
  | [] => ""
  | [v] => indent level ++ pretty level v
  | v :: rest => indent level ++ pretty level v ++ ",\n" ++ prettyItems level rest

def prettyMembers (level : Nat) : List (String × Json) → String
  | [] => ""
  | [(k, v)] => indent level ++ quote k ++ ": " ++ pretty level v
  | (k, v) :: rest =>
    indent level ++ quote k ++ ": " ++ pretty level v ++ ",\n" ++ prettyMembers level rest
end

end Json

end RoundRobin
