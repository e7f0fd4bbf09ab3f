import RoundRobin.Json.Decode

/-!
# Interpolation methods

Between two samples a series answers with the left sample, the right sample,
or the straight line through both. A method is chosen by a numeric code (0,
1 and 2); every other code is kept as an unsupported method, which answers
NaN between samples. In JSON the three named methods are their lower-case
names and an unsupported one is `{"unsupported": code}`.
-/

namespace RoundRobin

/-- How a series answers strictly between two samples. -/
inductive Method where
  | left
  | right
  | linear
  /-- A method code outside the known ones; it is kept, not refused. -/
  | unsupported (code : Int)
  deriving DecidableEq, Inhabited

namespace Method

def ofCode : Int → Method
  | 0 => .left
  | 1 => .right
  | 2 => .linear
  | c => .unsupported c

def code : Method → Int
  | .left => 0
  | .right => 1
  | .linear => 2
  | .unsupported c => c

def display : Method → String
  | .left => "left"
  | .right => "right"
  | .linear => "linear"
  | .unsupported c => s!"unsupported({c})"

def toJson : Method → Json
  | .left => .str "left"
  | .right => .str "right"
  | .linear => .str "linear"
  | .unsupported c => .obj [("unsupported", .int c)]

def names : List String := ["left", "right", "linear", "unsupported"]

open Json.Reader in
def reader : Json.Reader Method :=
  readEnum names fun k =>
    match k with
    | 0 => .unit .left
    | 1 => .unit .right
    | 2 => .unit .linear
    | _ => .newtype (.unsupported <$> readInt32)

def ofJsonText (text : String) : Except Json.ReadError Method := Json.Reader.readAll reader text

end Method

end RoundRobin
