import RoundRobin.Json.Decode

/-!
# Data-source names

A data source is named by one to nineteen bytes of ASCII letters, digits and
underscores. `SourceName.ofString` checks, in this order, that the name is not
empty, that it is not longer than nineteen bytes, and that every character is
allowed; the first failing check is the reason given. A name is written in
JSON as a string and read back from one.
-/

namespace RoundRobin

def maxNameBytes : Nat := 19

def isNameChar (c : Char) : Bool := c.isAlphanum || c == '_'

def isValidName (s : String) : Bool :=
  !s.isEmpty && s.utf8ByteSize ≤ maxNameBytes && s.toList.all isNameChar

/-- A valid data-source name. -/
structure SourceName where
  text : String
  valid : isValidName text = true

instance : DecidableEq SourceName := fun a b =>
  if h : a.text = b.text then
    isTrue (by cases a; cases b; simp only at h; subst h; rfl)
  else isFalse (fun e => h (congrArg SourceName.text e))

inductive NameFault where
  | empty
  | tooLong (bytes : Nat)
  | forbidden (c : Char)
  deriving DecidableEq

def NameFault.message : NameFault → String
  | .empty => "name is empty"
  | .tooLong n => s!"name is {n} characters, maximum is {maxNameBytes}"
  | .forbidden c => s!"character '{c}' is not allowed"

structure NameError where
  name : String
  fault : NameFault
  deriving DecidableEq

def NameError.message (e : NameError) : String :=
  s!"invalid data source name '{e.name}': " ++ e.fault.message

namespace SourceName

def faultOf (s : String) : Option NameFault :=
  if s.isEmpty then some .empty
  else if s.utf8ByteSize > maxNameBytes then some (.tooLong s.utf8ByteSize)
  else (s.toList.find? (fun c => !isNameChar c)).map .forbidden

theorem faultOf_eq_none_iff (s : String) : faultOf s = none ↔ isValidName s = true := by
  unfold faultOf isValidName
  by_cases h1 : s.isEmpty = true
  · simp [h1]
  · by_cases h2 : s.utf8ByteSize > maxNameBytes
    · simp only [h1, h2, if_true, if_false, Bool.false_eq_true, reduceCtorEq, false_iff,
        Bool.and_eq_true, decide_eq_true_eq, not_and]
      intro _ h3
      omega
    · simp only [h1, h2, if_false, Bool.false_eq_true, Option.map_eq_none_iff,
        List.find?_eq_none, Bool.not_eq_true', Bool.and_eq_true,
        decide_eq_true_eq, List.all_eq_true]
      constructor
      · intro h; exact ⟨⟨by simp_all, by omega⟩, fun c hc => by simpa using h c hc⟩
      · intro h c hc; simp [h.2 c hc]

def ofString (s : String) : Except NameError SourceName :=
  match hf : faultOf s with
  | some fault => .error ⟨s, fault⟩
  | none => .ok ⟨s, (faultOf_eq_none_iff s).1 hf⟩

def toJson (n : SourceName) : Json := .str n.text

/-- Reads a name from JSON: a string, then the checks. A refused name is a
fault about the data, with no place of its own. -/
def reader : Json.Reader SourceName := do
  let s ← Json.Reader.readString
  match ofString s with
  | .ok n => return n
  | .error e => Json.Reader.failPlaceless (.custom e.message)

def ofJsonText (text : String) : Except Json.ReadError SourceName :=
  Json.Reader.readAll reader text

end SourceName

end RoundRobin
