import RoundRobin.Text.Invisible

/-!
# Escaped quoting

`escapedQuote s` writes a text between double quotes so that every character
can be seen: the quote, the backslash, NUL, tab, line feed and carriage
return get a backslash and a letter, and characters without a glyph of their
own (`isInvisible`) are written `\u` followed by their code point in
lower-case hexadecimal between braces.
-/

namespace RoundRobin

def hexText (n : Nat) : List Char := Nat.toDigits 16 n

def escapedChar (c : Char) : List Char :=
  if c = '"' then ['\\', '"']
  else if c = '\\' then ['\\', '\\']
  else if c = '\n' then ['\\', 'n']
  else if c = '\r' then ['\\', 'r']
  else if c = '\t' then ['\\', 't']
  else if c.toNat = 0 then ['\\', '0']
  else if !isInvisible c then [c]
  else ['\\', 'u', '\x7b'] ++ hexText c.toNat ++ ['\x7d']

def escapedQuote (s : String) : String :=
  String.ofList ('"' :: s.toList.flatMap escapedChar ++ ['"'])

end RoundRobin
