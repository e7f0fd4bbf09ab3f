import RoundRobin.Json.Scan

/-!
# Reading typed values from JSON text

Readers for the kinds of value the library takes from JSON: 64- and 32-bit
integers, doubles, strings, lists, records and enumerations. Each one skips
leading whitespace, reads its value, and on finding another kind of value
reads that value too and names it in the failure (`invalid type: string "300",
expected i64`).

A record is written either as an object, whose members come in any order,
may be unknown (and are skipped), and may not repeat, or as a list of its
fields in declaration order. Fields with a fallback may be left out. An
enumeration is written as the name of a variant, or as an object with one
member whose key names the variant and whose value is its content.

A container is always closed after its content was read, also when the
content failed; then the first failure is the answer. A failure about the
data, which has no place of its own, takes the place where the reader of the
enclosing value stopped.
-/

namespace RoundRobin

namespace Json

namespace Reader

def ofResult (r : Except ReadFault α) : Reader α :=
  match r with
  | .ok a => return a
  | .error fault => failPlaceless fault

def Number.found : Number → Unexpected
  | .unsigned n => .unsigned n
  | .negative n => .signed n
  | .double x => .double x

/-- Reads the value that stands where a value of kind `expected` was wanted,
and fails naming both. -/
def invalidTypeHere (expected : String) : Reader α := do
  let b ← peekOrNull
  let found : Unexpected ←
    if b == 110 then do eat; expectWord [117, 108, 108]; pure .null
    else if b == 116 then do eat; expectWord [114, 117, 101]; pure (.bool true)
    else if b == 102 then do eat; expectWord [97, 108, 115, 101]; pure (.bool false)
    else if b == 45 then do eat; pure (Number.found (← parseInteger false))
    else if isDigit b then do pure (Number.found (← parseInteger true))
    else if b == 34 then do eat; pure (.str (← parseString))
    else if b == 91 then pure .seq
    else if b == 123 then pure .map
    else failAhead .expectedSomeValue
  throw (← settle ⟨.invalidType found expected, none⟩)

def numberWith (expected : String) (visit : Number → Except ReadFault α) : Reader α :=
  settling do
    match ← skipSpace with
    | none => failAhead .eofWhileParsingValue
    | some b =>
      if b == 45 then do eat; ofResult (visit (← parseInteger false))
      else if isDigit b then ofResult (visit (← parseInteger true))
      else invalidTypeHere expected

def readInt64 : Reader Int :=
  numberWith "i64" fun
    | .unsigned n => if n < Nat.pow 2 63 then .ok n else .error (.invalidValue (.unsigned n) "i64")
    | .negative n => .ok n
    | .double x => .error (.invalidType (.double x) "i64")

def readInt32 : Reader Int :=
  numberWith "i32" fun
    | .unsigned n => if n < Nat.pow 2 31 then .ok n else .error (.invalidValue (.unsigned n) "i32")
    | .negative n =>
      if -Int.pow 2 31 ≤ n then .ok n else .error (.invalidValue (.signed n) "i32")
    | .double x => .error (.invalidType (.double x) "i32")

def readDouble : Reader Binary64 :=
  numberWith "f64" fun
    | .unsigned n => .ok (Binary64.ofInt n)
    | .negative n => .ok (Binary64.ofInt n)
    | .double x => .ok x

def stringWith (expected : String) (visit : String → Except ReadFault α) : Reader α :=
  settling do
    match ← skipSpace with
    | none => failAhead .eofWhileParsingValue
    | some 34 => do eat; ofResult (visit (← parseString))
    | some _ => invalidTypeHere expected

def readString : Reader String := stringWith "a string" .ok

def readUnit : Reader Unit :=
  settling do
    match ← skipSpace with
    | none => failAhead .eofWhileParsingValue
    | some 110 => do eat; expectWord [117, 108, 108]
    | some _ => invalidTypeHere "unit"

def closeList : Reader Unit := do
  match ← skipSpace with
  | some 93 => eat
  | some 44 =>
    eat
    match ← skipSpace with
    | some 93 => failAhead .trailingComma
    | _ => failAhead .trailingCharacters
  | some _ => failAhead .trailingCharacters
  | none => failAhead .eofWhileParsingList

def closeObject : Reader Unit := do
  match ← skipSpace with
  | some 125 => eat
  | some 44 => failAhead .trailingComma
  | some _ => failAhead .trailingCharacters
  | none => failAhead .eofWhileParsingObject

/-- Reads the content of a container, then closes it whatever happened; the
first failure is the answer. -/
def enclosed (content : Reader α) (close : Reader Unit) : Reader α := do
  let r ← attempt content
  let c ← attempt close
  match r, c with
  | .ok a, .ok () => return a
  | .error e, _ => throw e
  | .ok _, .error e => throw e

def hasNextElement (first : Bool) : Reader Bool := do
  let peeked ← match ← skipSpace with
    | some 93 => return false
    | some 44 => if first then pure (some 44) else do eat; skipSpace
    | some b => if first then pure (some b) else failAhead .expectedListCommaOrEnd
    | none => failAhead .eofWhileParsingList
  match peeked with
  | some 93 => failAhead .trailingComma
  | some _ => return true
  | none => failAhead .eofWhileParsingValue

def nextKey (first : Bool) : Reader (Option String) := do
  let peeked ← match ← skipSpace with
    | some 125 => return none
    | some 44 => if first then pure (some 44) else do eat; skipSpace
    | some b => if first then pure (some b) else failAhead .expectedObjectCommaOrEnd
    | none => failAhead .eofWhileParsingObject
  match peeked with
  | some 34 => do eat; return some (← parseString)
  | some 125 => failAhead .trailingComma
  | some _ => failAhead .keyMustBeAString
  | none => failAhead .eofWhileParsingValue

def objectColon : Reader Unit := do
  match ← skipSpace with
  | some 58 => eat
  | some _ => failAhead .expectedColon
  | none => failAhead .eofWhileParsingObject

/-- Elements up to the end of a list. Every element moves past at least one
byte, so the fuel, the length of the text, is never the limit. -/
def elementsLoop (elem : Reader α) (fuel : Nat) (first : Bool) (acc : List α) : Reader (List α) :=
  match fuel with
  | 0 => fail .eofWhileParsingList
  | fuel + 1 => do
    if ← hasNextElement first then
      let a ← elem
      elementsLoop elem fuel false (acc ++ [a])
    else return acc

def readList (elem : Reader α) : Reader (List α) :=
  settling do
    match ← skipSpace with
    | none => failAhead .eofWhileParsingValue
    | some 91 =>
      eat
      let fuel := (← read).size + 1
      enclosed (elementsLoop elem fuel true []) closeList
    | some _ => invalidTypeHere "a sequence"

/-- How a record is read: its name and field names in declaration order, a
draft `β` that fields are read into, and the record built from a full draft. -/
structure RecordShape (α β : Type) where
  name : String
  fields : List String
  empty : β
  /-- Whether field `k` has been read into the draft. -/
  filled : β → Nat → Bool
  /-- Reads the value of field `k` into the draft. -/
  readField : Nat → β → Reader β
  /-- The draft with field `k` set to its fallback, for fields that have one. -/
  fallback : Nat → β → Option β
  build : β → Option α

def membersLoop (shape : RecordShape α β) (fuel : Nat) (first : Bool) (acc : β) : Reader β :=
  match fuel with
  | 0 => fail .eofWhileParsingObject
  | fuel + 1 => do
    match ← nextKey first with
    | none => return acc
    | some key =>
      match shape.fields.findIdx? (· == key) with
      | some k =>
        if shape.filled acc k then failPlaceless (.duplicateField key)
        else
          objectColon
          let acc ← shape.readField k acc
          membersLoop shape fuel false acc
      | none =>
        objectColon
        skipValue
        membersLoop shape fuel false acc

/-- The record from a draft; a field still missing is set to its fallback or
reported, in declaration order. -/
def completeRecord (shape : RecordShape α β) (acc : β) : Reader α := do
  let acc ← (List.range shape.fields.length).foldlM (fun acc k =>
    if shape.filled acc k then pure acc
    else
      match shape.fallback k acc with
      | some acc => pure acc
      | none => failPlaceless (.missingField (shape.fields.getD k ""))) acc
  match shape.build acc with
  | some a => return a
  | none => failPlaceless (.custom "incomplete record")

def fieldsInOrder (shape : RecordShape α β) : Reader α := do
  let n := shape.fields.length
  let (acc, _) ← (List.range n).foldlM (fun (acc, first) k => do
    if ← hasNextElement first then
      let acc ← shape.readField k acc
      pure (acc, false)
    else
      match shape.fallback k acc with
      | some acc => pure (acc, first)
      | none => failPlaceless (.invalidLength k s!"struct {shape.name} with {n} elements"))
    (shape.empty, true)
  match shape.build acc with
  | some a => return a
  | none => failPlaceless (.custom "incomplete record")

def readRecord (shape : RecordShape α β) : Reader α :=
  settling do
    match ← skipSpace with
    | none => failAhead .eofWhileParsingValue
    | some 91 =>
      eat
      enclosed (fieldsInOrder shape) closeList
    | some 123 =>
      eat
      let fuel := (← read).size + 1
      enclosed (do completeRecord shape (← membersLoop shape fuel true shape.empty)) closeObject
    | some _ => invalidTypeHere ("struct " ++ shape.name)

/-- The content of a variant: none, or a value read after the key. -/
inductive VariantBody (α : Type) where
  | unit (value : α)
  | newtype (read : Reader α)

def variantIndex (names : List String) : Reader Nat :=
  stringWith "variant identifier" fun s =>
    match names.findIdx? (· == s) with
    | some k => .ok k
    | none => .error (.unknownVariant s names)

def readEnum (names : List String) (body : Nat → VariantBody α) : Reader α := do
  match ← skipSpace with
  | some 123 =>
    eat
    -- the variant's name stands where an object key would
    match ← skipSpace with
    | some 34 => pure ()
    | some 125 => failAhead .expectedSomeValue
    | some _ => failAhead .keyMustBeAString
    | none => failAhead .eofWhileParsingObject
    let k ← variantIndex names
    objectColon
    let v ← match body k with
      | .unit a => do readUnit; pure a
      | .newtype r => r
    match ← skipSpace with
    | some 125 => do eat; pure v
    | some _ => fail .expectedSomeValue
    | none => fail .eofWhileParsingObject
  | some 34 =>
    let k ← variantIndex names
    match body k with
    | .unit a => pure a
    | .newtype _ => failPlaceless (.invalidType .unitVariant "newtype variant")
  | some _ => failAhead .expectedSomeValue
  | none => failAhead .eofWhileParsingValue

def readAll (x : Reader α) (text : String) : Except ReadError α :=
  runOn (do
    let a ← x
    match ← skipSpace with
    | some _ => failAhead .trailingCharacters
    | none => pure a) text

end Reader

end Json

end RoundRobin
