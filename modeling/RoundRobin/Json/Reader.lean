import RoundRobin.Json.Error

/-!
# Reading JSON text byte by byte

A `Reader` looks at the bytes of a text from a current index. It reads
forward only, and a failure keeps the index where it happened, so that a
reader that runs after a failure (closing a list, say) starts from there.

Places in messages are taken either at the current index (`fail`) or one
byte further, never past the end (`failAhead`): faults found while looking
at the next byte name the place just after it.
-/

namespace RoundRobin

namespace Json

abbrev Reader := ReaderT ByteArray (ExceptT ReadError (StateM Nat))

/-- Line and column of a byte index: one more than the line feeds before it,
and the bytes since the last of them. -/
def placeOf (bytes : ByteArray) (i : Nat) : Nat × Nat :=
  let before := (bytes.extract 0 i).toList
  let line := before.count 10 + 1
  let column := (before.reverse.takeWhile (· != 10)).length
  (line, column)

namespace Reader

def peek : Reader (Option UInt8) := do
  let bytes ← read
  let i ← get
  return bytes[i]?

def eat : Reader Unit := modify (· + 1)

def next : Reader (Option UInt8) := do
  let b ← peek
  if b.isSome then eat
  return b

def peekOrNull : Reader UInt8 := return (← peek).getD 0

def nextOrNull : Reader UInt8 := return (← next).getD 0

def fail (fault : ReadFault) : Reader α := do
  throw ⟨fault, some (placeOf (← read) (← get))⟩

def failAhead (fault : ReadFault) : Reader α := do
  let bytes ← read
  throw ⟨fault, some (placeOf bytes (min bytes.size ((← get) + 1)))⟩

def failPlaceless (fault : ReadFault) : Reader α := throw ⟨fault, none⟩

def settle (e : ReadError) : Reader ReadError := do
  match e.place with
  | some _ => return e
  | none => return ⟨e.fault, some (placeOf (← read) (← get))⟩

def settling (x : Reader α) : Reader α :=
  tryCatch x fun e => do throw (← settle e)

def attempt (x : Reader α) : Reader (Except ReadError α) :=
  tryCatch (Except.ok <$> x) fun e => return .error e

def isSpace (b : UInt8) : Bool := b == 32 || b == 9 || b == 10 || b == 13

def skipSpaceFrom (bytes : ByteArray) (i : Nat) : Nat :=
  if h : i < bytes.size then
    if isSpace bytes[i] then skipSpaceFrom bytes (i + 1) else i
  else i
termination_by bytes.size - i

def skipSpace : Reader (Option UInt8) := do
  let bytes ← read
  modify (skipSpaceFrom bytes)
  peek

def isDigit (b : UInt8) : Bool := 48 ≤ b && b ≤ 57

def skipDigitsFrom (bytes : ByteArray) (i : Nat) : Nat :=
  if h : i < bytes.size then
    if isDigit bytes[i] then skipDigitsFrom bytes (i + 1) else i
  else i
termination_by bytes.size - i

def skipDigits : Reader Nat := do
  let bytes ← read
  let i ← get
  let j := skipDigitsFrom bytes i
  set j
  return j - i

def expectWord (rest : List UInt8) : Reader Unit := do
  for b in rest do
    match ← next with
    | none => fail .eofWhileParsingValue
    | some c => if c != b then fail .expectedSomeIdent

def runOn (x : Reader α) (text : String) : Except ReadError α :=
  ((ExceptT.run (ReaderT.run x text.toUTF8)).run 0).1

end Reader

end Json

end RoundRobin
