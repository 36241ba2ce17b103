import UriTemplate.Text.Basic

/-!
# Types of YAML nodes

* `Yaml.NodeType` — the types that nodes may have;
* `NodeType.ofTag` — the type that a tag names.
-/

namespace UriTemplate.Yaml

inductive NodeType
  | null
  | bool
  | int
  | float
  | binary
  | timestamp
  | text
  | sequence
  | mapping
  | set
  | orderedMapping
  /-- A sequence of pairs. -/
  | pairs
  /-- A key that merges other mappings into its own. -/
  | merge
  /-- A key whose value stands for the mapping where a single value is wanted. -/
  | default
  /-- A type of which nothing is known. -/
  | unknown
deriving DecidableEq

namespace NodeType

/-- The names of the types, behind the beginning that their tags have in common. -/
def names : List (String × NodeType) := [
  ("null", .null), ("bool", .bool), ("int", .int), ("float", .float), ("binary", .binary), ("timestamp", .timestamp),
  ("str", .text), ("seq", .sequence), ("map", .mapping), ("set", .set), ("omap", .orderedMapping), ("pairs", .pairs),
  ("merge", .merge), ("value", .default)]

def ofTag (tag : Text) : NodeType :=
  match names.find? fun e => tag = Text.ofString ("tag:yaml.org,2002:" ++ e.1) with
  | some (_, type) => type
  | none => .unknown

/-- Whether the nodes of the type become collections, which are there before their members. -/
def isCollection : NodeType → Bool
  | sequence | mapping | set | orderedMapping | pairs => true
  | _ => false

end NodeType

end UriTemplate.Yaml
