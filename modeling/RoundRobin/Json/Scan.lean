import RoundRobin.Json.Reader
import RoundRobin.Number.Arithmetic

/-!
# Numbers, strings and skipped values

The lexical layer of the JSON reader.

* A number is read as an unsigned or negative 64-bit integer when it is
  written without point or exponent and fits; `-0` and every other number
  become a double. A double is assembled from the first digits that fit in 64
  bits and a decimal exponent: the significand is rounded to a double, then
  multiplied or divided by the double nearest the power of ten, so a result
  that overflows is refused as out of range and one that underflows is zero.
* A string decodes its escapes; `\u` escapes of surrogates must come in
  pairs. Control characters must be escaped.
* A skipped value is checked for syntax without building anything.
-/

namespace RoundRobin

namespace Json

/-- A number as the text writes it. -/
inductive Number where
  | unsigned (n : Nat)
  | negative (n : Int)
  | double (x : Binary64)

namespace Reader

def significandMax : Nat := Nat.pow 2 64 - 1

def exponentMax : Nat := Nat.pow 2 31 - 1

def clampI32 (n : Int) : Int := max (-Int.pow 2 31) (min n (Int.pow 2 31 - 1))

def digitValue (b : UInt8) : Nat := b.toNat - 48

/-- Accumulates digits from `i` while the value stays within `limit`. Returns
the value, the index reached, and whether a digit was left because it did not
fit. -/
def accumulateFrom (bytes : ByteArray) (limit : Nat) (i acc : Nat) : Nat × Nat × Bool :=
  if h : i < bytes.size then
    if isDigit bytes[i] then
      let next := acc * 10 + digitValue bytes[i]
      if next > limit then (acc, i, true) else accumulateFrom bytes limit (i + 1) next
    else (acc, i, false)
  else (acc, i, false)
termination_by bytes.size - i

/-- `significand * 10 ^ exponent` assembled in doubles, with `none` on
overflow. Exponents below -308 are first brought up by divisions by `1e308`;
a zero stops early. The fuel counts those divisions. -/
def assemble (f : Binary64) (exponent : Int) : Nat → Option Binary64
  | 0 => some f
  | fuel + 1 =>
    if exponent.natAbs ≤ 308 then
      let pow := Binary64.powerOfTen exponent.natAbs
      if 0 ≤ exponent then
        let g := f.mulRounded pow
        if g.isFinite then some g else none
      else some (f.divRounded pow)
    else if f.isZero then some f
    else if 0 ≤ exponent then none
    else assemble (f.divRounded (Binary64.powerOfTen 308)) (exponent + 308) fuel

def fromParts (positive : Bool) (significand : Nat) (exponent : Int) : Reader Binary64 :=
  match assemble (Binary64.ofInt significand) exponent (exponent.natAbs / 308 + 1) with
  | some f => return (if positive then f else f.neg)
  | none => fail .numberOutOfRange

def parseExponent (positive : Bool) (significand : Nat) (start : Int) : Reader Binary64 := do
  eat
  let positiveExponent ← match ← peekOrNull with
    | 43 => do eat; pure true
    | 45 => do eat; pure false
    | _ => pure true
  let first ← match ← next with
    | none => fail .eofWhileParsingValue
    | some b => if isDigit b then pure (digitValue b) else fail .invalidNumber
  let bytes ← read
  let (e, j, overflowed) := accumulateFrom bytes exponentMax (← get) first
  if overflowed then
    -- the digit that did not fit is consumed before the verdict
    set (j + 1)
    if significand != 0 && positiveExponent then fail .numberOutOfRange
    else
      let _ ← skipDigits
      return Binary64.zero !positive
  else
    set j
    let exponent := clampI32 (if positiveExponent then start + e else start - e)
    fromParts positive significand exponent

def parseDecimal (positive : Bool) (significand : Nat) (start : Int) : Reader Binary64 := do
  eat
  let bytes ← read
  let i ← get
  let (s, j, overflowed) := accumulateFrom bytes significandMax i significand
  set j
  let exponent := start - (j - i : Nat)
  if overflowed then
    let _ ← skipDigits
    if (← peekOrNull) == 101 || (← peekOrNull) == 69 then parseExponent positive s exponent
    else fromParts positive s exponent
  else
    if j == i then
      match ← peek with
      | some _ => failAhead .invalidNumber
      | none => failAhead .eofWhileParsingValue
    if (← peekOrNull) == 101 || (← peekOrNull) == 69 then parseExponent positive s exponent
    else fromParts positive s exponent

/-- Digits beyond 64 bits only count towards the exponent. -/
def parseLongInteger (positive : Bool) (significand : Nat) : Reader Binary64 := do
  let extra ← skipDigits
  match ← peekOrNull with
  | 46 => parseDecimal positive significand extra
  | 101 | 69 => parseExponent positive significand extra
  | _ => fromParts positive significand extra

def parseNumber (positive : Bool) (significand : Nat) : Reader Number := do
  match ← peekOrNull with
  | 46 => .double <$> parseDecimal positive significand 0
  | 101 | 69 => .double <$> parseExponent positive significand 0
  | _ =>
    if positive then return .unsigned significand
    else if 1 ≤ significand ∧ significand ≤ Nat.pow 2 63 then return .negative (-(significand : Int))
    else return .double (Binary64.ofInt significand).neg

def parseInteger (positive : Bool) : Reader Number := do
  match ← next with
  | none => fail .eofWhileParsingValue
  | some 48 =>
    if isDigit (← peekOrNull) then failAhead .invalidNumber else parseNumber positive 0
  | some b =>
    if isDigit b then
      let (s, j, overflowed) := accumulateFrom (← read) significandMax (← get) (digitValue b)
      set j
      if overflowed then .double <$> parseLongInteger positive s else parseNumber positive s
    else fail .invalidNumber

def hexValue (bs : List UInt8) : Option Nat :=
  bs.foldlM (fun acc b =>
    if 48 ≤ b && b ≤ 57 then some (acc * 16 + (b.toNat - 48))
    else if 97 ≤ b && b ≤ 102 then some (acc * 16 + (b.toNat - 87))
    else if 65 ≤ b && b ≤ 70 then some (acc * 16 + (b.toNat - 55))
    else none) 0

/-- The four hexadecimal digits of a `\u` escape at `i`: the code unit and the
index after them. -/
def hexEscapeAt (bytes : ByteArray) (i : Nat) : Except (ReadFault × Nat) (Nat × Nat) :=
  if i + 4 ≤ bytes.size then
    match hexValue (bytes.extract i (i + 4)).toList with
    | some n => .ok (n, i + 4)
    | none => .error (.invalidEscape, i + 4)
  else .error (.eofWhileParsingString, bytes.size)

def utf8Of (n : Nat) : List UInt8 := (String.singleton (Char.ofNat n)).toUTF8.toList

/-- Decodes the escape after a backslash at `i`: the bytes it stands for and
the index after it. A fault comes with the index of its place. -/
def escapeAt (bytes : ByteArray) (i : Nat) : Except (ReadFault × Nat) (List UInt8 × Nat) :=
  match bytes[i]? with
  | none => .error (.eofWhileParsingString, i)
  | some c =>
    let j := i + 1
    if c == 34 then .ok ([34], j)
    else if c == 92 then .ok ([92], j)
    else if c == 47 then .ok ([47], j)
    else if c == 98 then .ok ([8], j)
    else if c == 102 then .ok ([12], j)
    else if c == 110 then .ok ([10], j)
    else if c == 114 then .ok ([13], j)
    else if c == 116 then .ok ([9], j)
    else if c == 117 then
      match hexEscapeAt bytes j with
      | .error e => .error e
      | .ok (n, k) =>
        if 0xDC00 ≤ n ∧ n ≤ 0xDFFF then .error (.loneLeadingSurrogateInHexEscape, k)
        else if n < 0xD800 ∨ 0xDBFF < n then .ok (utf8Of n, k)
        else
          match bytes[k]? with
          | none => .error (.eofWhileParsingString, k)
          | some 92 =>
            match bytes[k + 1]? with
            | none => .error (.eofWhileParsingString, k + 1)
            | some 117 =>
              match hexEscapeAt bytes (k + 2) with
              | .error e => .error e
              | .ok (n2, m) =>
                if 0xDC00 ≤ n2 ∧ n2 ≤ 0xDFFF then
                  .ok (utf8Of ((n - 0xD800) * 0x400 + (n2 - 0xDC00) + 0x10000), m)
                else .error (.loneLeadingSurrogateInHexEscape, m)
            | some _ => .error (.unexpectedEndOfHexEscape, k + 2)
          | some _ => .error (.unexpectedEndOfHexEscape, k + 1)
    else .error (.invalidEscape, j)

def plainEnd (bytes : ByteArray) (i : Nat) : Nat :=
  if h : i < bytes.size then
    let b := bytes[i]
    if b == 34 || b == 92 || b < 32 then i else plainEnd bytes (i + 1)
  else i
termination_by bytes.size - i

/-- Decodes a string body from `i` (after the opening quote) up to its closing
quote: the bytes and the index after the quote. `decode` says whether escapes
are decoded or only checked; a control character is placed after itself when
decoding and at itself when only checking. -/
def stringFrom (bytes : ByteArray) (decode : Bool) (i : Nat) (out : List UInt8) :
    Except (ReadFault × Nat) (List UInt8 × Nat) :=
  let j := plainEnd bytes i
  let out := out ++ (bytes.extract i j).toList
  match bytes[j]? with
  | none => .error (.eofWhileParsingString, bytes.size)
  | some 34 => .ok (out, j + 1)
  | some 92 =>
    let escape :=
      if decode then escapeAt bytes (j + 1)
      else match bytes[j + 1]? with
        | some 117 => (hexEscapeAt bytes (j + 2)).map fun (_, k) => ([], k)
        | some c =>
          if [34, 92, 47, 98, 102, 110, 114, 116].contains c then .ok ([], j + 2)
          else .error (.invalidEscape, j + 2)
        | none => .error (.eofWhileParsingString, j + 1)
    match escape with
    | .error e => .error e
    | .ok (more, k) =>
      if _h : i < k ∧ k ≤ bytes.size then stringFrom bytes decode k (out ++ more)
      else .error (.eofWhileParsingString, k)
  | some _ => .error (.controlCharacterWhileParsingString, if decode then j + 1 else j)
termination_by bytes.size - i
decreasing_by omega

def parseString : Reader String := do
  let bytes ← read
  match stringFrom bytes true (← get) [] with
  | .ok (out, j) =>
    set j
    return (String.fromUTF8? (ByteArray.mk out.toArray)).getD ""
  | .error (fault, k) =>
    set k
    throw ⟨fault, some (placeOf bytes k)⟩

def skipString : Reader Unit := do
  let bytes ← read
  match stringFrom bytes false (← get) [] with
  | .ok (_, j) => set j
  | .error (fault, k) =>
    set k
    throw ⟨fault, some (placeOf bytes k)⟩

def skipExponent : Reader Unit := do
  eat
  match ← peekOrNull with
  | 43 | 45 => eat
  | _ => pure ()
  if isDigit (← nextOrNull) then
    let _ ← skipDigits
  else fail .invalidNumber

def skipFraction : Reader Unit := do
  eat
  if (← skipDigits) == 0 then failAhead .invalidNumber
  match ← peekOrNull with
  | 101 | 69 => skipExponent
  | _ => pure ()

def skipInteger : Reader Unit := do
  let b ← nextOrNull
  if b == 48 then
    if isDigit (← peekOrNull) then failAhead .invalidNumber
  else if isDigit b then
    let _ ← skipDigits
  else fail .invalidNumber
  match ← peekOrNull with
  | 46 => skipFraction
  | 101 | 69 => skipExponent
  | _ => pure ()

/-- Closes the containers that end after a value inside `frame` (a `[` or a
`\x7b` byte), the open ones above it being `stack`. Gives the frame and stack
to go on in, or `none` when the outermost container has closed. -/
def closeFrames (fuel : Nat) (stack : List UInt8) (acceptComma : Bool) (frame : UInt8) :
    Reader (Option (List UInt8 × UInt8)) :=
  match fuel with
  | 0 => fail .eofWhileParsingValue
  | fuel + 1 => do
    match ← skipSpace with
    | none => failAhead (if frame == 91 then .eofWhileParsingList else .eofWhileParsingObject)
    | some b =>
      if b == 44 && acceptComma then
        eat
        return some (stack, frame)
      else if (b == 93 && frame == 91) || (b == 125 && frame == 123) then
        eat
        match stack with
        | [] => return none
        | f :: rest => closeFrames fuel rest true f
      else if acceptComma then
        failAhead (if frame == 91 then .expectedListCommaOrEnd else .expectedObjectCommaOrEnd)
      else return some (stack, frame)

/-- Moves past one value of any kind and nesting, keeping the open containers
on a stack; `enclosing` is the container the next value stands in. -/
def skipLoop (fuel : Nat) (stack : List UInt8) (enclosing : Option UInt8) : Reader Unit :=
  match fuel with
  | 0 => fail .eofWhileParsingValue
  | fuel + 1 => do
    let opened : Option UInt8 ← match ← skipSpace with
      | none => failAhead .eofWhileParsingValue
      | some 110 => do eat; expectWord [117, 108, 108]; pure none
      | some 116 => do eat; expectWord [114, 117, 101]; pure none
      | some 102 => do eat; expectWord [97, 108, 115, 101]; pure none
      | some 45 => do eat; skipInteger; pure none
      | some 34 => do eat; skipString; pure none
      | some b =>
        if isDigit b then do skipInteger; pure none
        else if b == 91 || b == 123 then do eat; pure (some b)
        else failAhead .expectedSomeValue
    let next : Option (List UInt8 × Bool × UInt8) :=
      match opened, enclosing with
      | some f, some e => some (e :: stack, false, f)
      | some f, none => some (stack, false, f)
      | none, some e => some (stack, true, e)
      | none, none =>
        match stack with
        | f :: rest => some (rest, true, f)
        | [] => none
    match next with
    | none => return ()
    | some (stack, acceptComma, frame) =>
      match ← closeFrames (fuel + 1) stack acceptComma frame with
      | none => return ()
      | some (stack, frame) =>
        if frame == 123 then
          match ← skipSpace with
          | some 34 => eat
          | some _ => failAhead .keyMustBeAString
          | none => failAhead .eofWhileParsingObject
          skipString
          match ← skipSpace with
          | some 58 => eat
          | some _ => failAhead .expectedColon
          | none => failAhead .eofWhileParsingObject
        skipLoop fuel stack (some frame)

/-- Moves past one value of any kind, checking its syntax. Every round of the
loop moves past at least one byte, so the length of the text bounds it. -/
def skipValue : Reader Unit := do
  skipLoop ((← read).size + 1) [] none

end Reader

end Json

end RoundRobin
