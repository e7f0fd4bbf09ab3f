import RoundRobin.Series.Method

/-!
# Sample series

A `Series` holds sample times and values of equal length, at least two, with
strictly increasing times; the type carries these facts. It also holds the
interpolation method and a cursor, the segment where the last query landed.

`Series.make` refuses samples by the first failing check: lengths that
differ, then fewer than two samples, then times that do not increase, where
the refusal names the first bad pair by the index of its second time and
counts all bad pairs.
-/

namespace RoundRobin

def isIncreasing : List Int → Bool
  | a :: b :: rest => a < b && isIncreasing (b :: rest)
  | _ => true

inductive SeriesError where
  | tooFewPoints (count : Nat)
  | lengthMismatch (times values : Nat)
  | notIncreasing (index : Nat) (previous current : Int) (violations : Nat)
  deriving DecidableEq

def SeriesError.message : SeriesError → String
  | .tooFewPoints n => s!"at least two samples are required, got {n}"
  | .lengthMismatch t v => s!"timestamp and value counts differ: {t} timestamps, {v} values"
  | .notIncreasing i prev cur k =>
    s!"timestamps must be strictly increasing: timestamps[{i}]={cur} follows {prev} " ++
      s!"({k} out-of-order pair(s) in total)"

/-- Samples at strictly increasing times, an interpolation method and a cursor. -/
structure Series where
  times : List Int
  values : List Binary64
  method : Method
  /-- The segment where the last query between two samples landed. -/
  cursor : Nat
  length_eq : values.length = times.length
  two_le : 2 ≤ times.length
  increasing : isIncreasing times = true

namespace Series

/-- The out-of-order pairs of neighbouring times from position `i` on: the
index of the second time, then the two times. -/
def violationsFrom : Nat → List Int → List (Nat × Int × Int)
  | i, a :: b :: rest =>
    (if b ≤ a then [(i + 1, a, b)] else []) ++ violationsFrom (i + 1) (b :: rest)
  | _, _ => []

theorem isIncreasing_of_violationsFrom_eq_nil :
    ∀ (i : Nat) (times : List Int), violationsFrom i times = [] → isIncreasing times = true
  | i, a :: b :: rest, h => by
    simp only [violationsFrom, List.append_eq_nil_iff, ite_eq_right_iff, reduceCtorEq,
      imp_false, Int.not_le] at h
    simp only [isIncreasing, Bool.and_eq_true, decide_eq_true_eq]
    exact ⟨h.1, isIncreasing_of_violationsFrom_eq_nil (i + 1) (b :: rest) h.2⟩
  | _, [], _ => rfl
  | _, [_], _ => rfl

/-- A series from sample times and values, with the linear method and the
cursor at the first segment. -/
def make (times : List Int) (values : List Binary64) : Except SeriesError Series :=
  if hl : values.length ≠ times.length then .error (.lengthMismatch times.length values.length)
  else if h2 : times.length < 2 then .error (.tooFewPoints times.length)
  else
    match hv : violationsFrom 0 times with
    | (i, a, b) :: _ => .error (.notIncreasing i a b (violationsFrom 0 times).length)
    | [] => .ok ⟨times, values, .linear, 0, by omega, by omega,
        isIncreasing_of_violationsFrom_eq_nil 0 times hv⟩

def ofPoints (points : List (Int × Binary64)) : Except SeriesError Series :=
  make (points.map (·.1)) (points.map (·.2))

def withMethod (s : Series) (m : Method) : Series := { s with method := m }

def timeRange (s : Series) : Int × Int := (s.times.headD 0, s.times.getLastD 0)

end Series

end RoundRobin
