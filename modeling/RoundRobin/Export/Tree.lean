import RoundRobin.Source.Name

/-!
# Export trees

An export is a tree of tagged nodes, each holding a text or children, and
optionally labelled with a data-source name. It is written two ways.

XML puts each node on its own lines, indented two spaces per level: an
unlabelled text node on one line, `<tag>text</tag>`; any other node opens
its tag, names its label in a comment, then holds its text on a line of its
own or its children, and closes the tag. In texts only `&`, `<` and `>` are
escaped.

JSON puts each node under one key, its label or else its tag: a text node
as a string, children as an object whose keys are sorted, where of two
children with one key the later wins.
-/

namespace RoundRobin

/-- A tagged node of an export, optionally labelled. -/
inductive ExportTree where
  | text (tag : String) (label : Option SourceName) (content : String)
  | node (tag : String) (label : Option SourceName) (children : List ExportTree)

namespace ExportTree

def tag : ExportTree → String
  | .text t .. => t
  | .node t .. => t

def label : ExportTree → Option SourceName
  | .text _ l _ => l
  | .node _ l _ => l

def key (n : ExportTree) : String := (n.label.map (·.text)).getD n.tag

def escape (s : String) : String :=
  String.join (s.toList.map fun c =>
    if c = '&' then "&amp;" else if c = '<' then "&lt;" else if c = '>' then "&gt;"
    else String.singleton c)

def pad (depth : Nat) : String := String.ofList (List.replicate (2 * depth) ' ')

def labelLine (depth : Nat) : Option SourceName → String
  | none => ""
  | some l => pad depth ++ "  <!-- " ++ l.text ++ " -->\n"

def xmlAt (depth : Nat) : ExportTree → String
  | .text tag none content => pad depth ++ "<" ++ tag ++ ">" ++ escape content ++ "</" ++ tag ++ ">\n"
  | .text tag (some l) content =>
    pad depth ++ "<" ++ tag ++ ">\n" ++ labelLine depth (some l) ++
      pad depth ++ "  " ++ escape content ++ "\n" ++ pad depth ++ "</" ++ tag ++ ">\n"
  | .node tag l children =>
    pad depth ++ "<" ++ tag ++ ">\n" ++ labelLine depth l ++
      String.join (children.attach.map fun ⟨c, _⟩ => xmlAt (depth + 1) c) ++
      pad depth ++ "</" ++ tag ++ ">\n"

def toXml (n : ExportTree) : String := xmlAt 0 n

def insertSorted (k : String) (v : Json) : List (String × Json) → List (String × Json)
  | [] => [(k, v)]
  | (k', v') :: rest =>
    if k = k' then (k, v) :: rest
    else if k < k' then (k, v) :: (k', v') :: rest
    else (k', v') :: insertSorted k v rest

def body : ExportTree → Json
  | .text _ _ content => .str content
  | .node _ _ children =>
    .obj (children.attach.foldl (fun acc ⟨c, _⟩ => insertSorted c.key c.body acc) [])

def toJson (n : ExportTree) : Json := .obj [(n.key, n.body)]

end ExportTree

end RoundRobin
