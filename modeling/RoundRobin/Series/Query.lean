import RoundRobin.Series.Basic

/-!
# Asking a series for a value

A query time outside the sampled range gives NaN. Inside it, the first
sample from the starting index whose time equals the query gives its value
whatever the method; otherwise the first segment from there that holds the
query strictly inside is answered by the method. `Series.scan` searches from
the first sample and works on any lists, even ones that are not a valid
series. `Series.valueAt` starts from the cursor unless the query lies before
the cursor's sample, and moves the cursor to the segment it lands in.
-/

namespace RoundRobin

inductive Hit where
  /-- On the sample with this index. -/
  | exact (i : Nat)
  /-- Strictly inside the segment from the sample with this index to the next. -/
  | segment (i : Nat)
  deriving DecidableEq

namespace Series

def locateFrom : Nat → List Int → Int → Option Hit
  | i, a :: rest, t =>
    if a = t then some (.exact i)
    else
      match rest with
      | b :: _ => if a < t ∧ t < b then some (.segment i) else locateFrom (i + 1) rest t
      | [] => none
  | _, [], _ => none

def locate (times : List Int) (t : Int) (start : Nat) : Option Hit :=
  locateFrom start (times.drop start) t

/-- The value of the double nearest to an integer, as hardware arithmetic sees it. -/
def intFloat (n : Int) : Float := (Binary64.ofInt n).toFloat

/-- The straight line through two samples, evaluated in double arithmetic in
this order: `v0 + (v1 - v0) / (t1 - t0) * (t - t0)`, each time first rounded
to a double. -/
def linearValue (t0 t1 : Int) (v0 v1 : Binary64) (t : Int) : Binary64 :=
  let span := intFloat t1 - intFloat t0
  let offset := intFloat t - intFloat t0
  Binary64.ofFloat (v0.toFloat + (v1.toFloat - v0.toFloat) / span * offset)

def resolve (method : Method) (times : List Int) (values : List Binary64) (i : Nat) (t : Int) :
    Binary64 :=
  match method with
  | .left => values.getD i Binary64.nan
  | .right => values.getD (i + 1) Binary64.nan
  | .linear =>
    linearValue (times.getD i 0) (times.getD (i + 1) 0)
      (values.getD i Binary64.nan) (values.getD (i + 1) Binary64.nan) t
  | .unsupported _ => Binary64.nan

/-- The value at `t`, searching from the first sample; NaN on empty or
mismatched lists and outside the first and last times. -/
def scan (times : List Int) (values : List Binary64) (method : Method) (t : Int) : Binary64 :=
  match times.head?, times.getLast? with
  | some first, some last =>
    if times.length ≠ values.length ∨ t < first ∨ last < t then Binary64.nan
    else
      match locate times t 0 with
      | some (.exact i) => values.getD i Binary64.nan
      | some (.segment i) => resolve method times values i t
      | none => Binary64.nan
  | _, _ => Binary64.nan

def valueAtUncached (s : Series) (t : Int) : Binary64 := scan s.times s.values s.method t

/-- The value at `t`, searching from the cursor, and the series with the
cursor moved to the segment the query landed in. -/
def valueAt (s : Series) (t : Int) : Binary64 × Series :=
  let (first, last) := s.timeRange
  if t < first ∨ last < t then (Binary64.nan, s)
  else
    let start := if t < s.times.getD s.cursor 0 then 0 else s.cursor
    match locate s.times t start with
    | some (.exact i) => (s.values.getD i Binary64.nan, s)
    | some (.segment i) => (resolve s.method s.times s.values i t, { s with cursor := i })
    | none => (Binary64.nan, s)

end Series

end RoundRobin
