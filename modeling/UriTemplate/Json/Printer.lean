import UriTemplate.Text.Quoted

/-!
# Printing JSON

* `Json.Tree` — what is printed;
* `Json.Tree.print` — its text, one member a line and two spaces for every level.
-/

namespace UriTemplate.Json

inductive Tree
  | null
  | bool (b : Bool)
  | int (i : Int)
  | text (t : Text)
  | array (items : List Tree)
  | object (entries : List (Text × Tree))

/-- A character in a JSON string.  Only quotes, backslashes and C0 controls are escaped. -/
def escapeChar (c : CodePoint) : Text :=
  if c = '\"' then "\\\""
  else if c = '\\' then "\\\\"
  else if c = '\n' then "\\n"
  else if c = '\r' then "\\r"
  else if c = '\t' then "\\t"
  else if c.val = 0x08 then "\\b"
  else if c.val = 0x0C then "\\f"
  else if c.val < 0x20 then ("\\u" : Text) ++ Text.hex 4 c.val
  else [c]

def quoted (t : Text) : Text := ('\"' : CodePoint) :: t.flatMap escapeChar ++ [('\"' : CodePoint)]

/-- Members between brackets, each in a line of its own that is indented by `depth` levels; nothing stands between the
brackets if there are no members. -/
def bracketed (opening closing : Text) (depth : Nat) (members : List Text) : Text :=
  let newLine (depth : Nat) : Text := ('\n' : CodePoint) :: List.replicate (2 * depth) (' ' : CodePoint)
  if members = [] then opening ++ closing
  else opening ++ newLine (depth + 1) ++ Text.join (("," : Text) ++ newLine (depth + 1)) members ++ newLine depth
    ++ closing

namespace Tree

mutual

/-- The text of a tree in a line that is indented by `depth` levels. -/
def print (depth : Nat) : Tree → Text
  | null => "null"
  | bool b => if b then "true" else "false"
  | int i => Text.ofInt i
  | text t => quoted t
  | array items => bracketed "[" "]" depth (printItems (depth + 1) items)
  | object entries => bracketed "\x7b" "\x7d" depth (printEntries (depth + 1) entries)

def printItems (depth : Nat) : List Tree → List Text
  | [] => []
  | t :: ts => print depth t :: printItems depth ts

def printEntries (depth : Nat) : List (Text × Tree) → List Text
  | [] => []
  | (name, t) :: es => (quoted name ++ (": " : Text) ++ print depth t) :: printEntries depth es

end

end Tree

end UriTemplate.Json
