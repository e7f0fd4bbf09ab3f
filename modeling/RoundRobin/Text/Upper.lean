/-!
# Upper case that lands in ASCII

`upperAscii? s` is the full Unicode upper case of `s` when that upper case is
all ASCII, and `none` otherwise. Besides the ASCII letters, ten characters
have an ASCII upper case: the dotless `ı` and the long `ſ`, the sharp `ß`
(`SS`) and the Latin ligatures `ﬀ ﬁ ﬂ ﬃ ﬄ ﬅ ﬆ`. Any other non-ASCII character
keeps a non-ASCII upper case, so comparing against ASCII words needs no more.
-/

namespace RoundRobin

/-- The non-ASCII characters whose upper case is ASCII, with that upper case. -/
def asciiUpperTable : List (Char × String) :=
  [('ß', "SS"), ('ı', "I"), ('ſ', "S"), ('ﬀ', "FF"), ('ﬁ', "FI"),
   ('ﬂ', "FL"), ('ﬃ', "FFI"), ('ﬄ', "FFL"), ('ﬅ', "ST"), ('ﬆ', "ST")]

def upperAsciiChar? (c : Char) : Option String :=
  if c.toNat < 128 then some (String.singleton c.toUpper)
  else (asciiUpperTable.find? (·.1 == c)).map (·.2)

def upperAscii? (s : String) : Option String :=
  (s.toList.mapM upperAsciiChar?).map String.join

end RoundRobin
