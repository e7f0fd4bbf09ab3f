/-!
# Blank characters

`isBlank` is the Unicode White_Space property: the ASCII tab, line feed,
vertical tab, form feed, carriage return and space, the next line control,
and seventeen wider spaces and separators. `trimBlank` removes such
characters from both ends of a text.
-/

namespace RoundRobin

/-- The code points of the White_Space property, in increasing order. -/
def blankCodePoints : List Nat :=
  [0x09, 0x0A, 0x0B, 0x0C, 0x0D, 0x20, 0x85, 0xA0, 0x1680,
   0x2000, 0x2001, 0x2002, 0x2003, 0x2004, 0x2005, 0x2006, 0x2007, 0x2008, 0x2009, 0x200A,
   0x2028, 0x2029, 0x202F, 0x205F, 0x3000]

def isBlank (c : Char) : Bool := blankCodePoints.contains c.toNat

def trimBlank (s : String) : String :=
  String.ofList ((s.toList.dropWhile isBlank).reverse.dropWhile isBlank).reverse

example : blankCodePoints.length = 25 := rfl

end RoundRobin
