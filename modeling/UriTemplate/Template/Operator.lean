import UriTemplate.PercentEncoding

/-!
# Operators

The character behind the brace of an expression decides how its values are written.

* `Operator` — the attributes that an expansion reads;
* `Operator.simple` and the seven operators that have a character;
* `Operator.ofChar?`, `Operator.ofSymbol` — the operator of a character.
-/

namespace UriTemplate

/-- How the values of an expression are written: `first` in front of the first one and `separator` between
them, `policy` for their characters, `named` if each stands behind its name, and `emptyEquals` if an equals
sign follows the name of an empty value too. -/
structure Operator where
  symbol : Text
  first : Option Text
  separator : Text
  policy : Policy := .unreserved
  named : Bool := false
  emptyEquals : Bool := false
deriving DecidableEq

namespace Operator

def simple : Operator := { symbol := [], first := none, separator := [','] }

def reserved : Operator := { symbol := ['+'], first := none, separator := [','], policy := .reserved }

def fragment : Operator := { symbol := ['#'], first := some ['#'], separator := [','], policy := .reserved }

def label : Operator := { symbol := ['.'], first := some ['.'], separator := ['.'] }

def pathSegment : Operator := { symbol := ['/'], first := some ['/'], separator := ['/'] }

def pathParameter : Operator := { symbol := [';'], first := some [';'], separator := [';'], named := true }

def query : Operator :=
  { symbol := ['?'], first := some ['?'], separator := ['&'], named := true, emptyEquals := true }

def queryContinuation : Operator :=
  { symbol := ['&'], first := some ['&'], separator := ['&'], named := true, emptyEquals := true }

/-- The operators that are written with a character, with their names. -/
def table : List (Char × Operator × String) := [
  ('+', reserved, "reserved"), ('#', fragment, "fragment"), ('.', label, "label"),
  ('/', pathSegment, "path-segment"), (';', pathParameter, "path-parameter"), ('?', query, "query"),
  ('&', queryContinuation, "query-continuation")]

def ofChar? (c : CodePoint) : Option Operator := (table.find? fun e => c = e.1).map fun e => e.2.1

/-- The operator written as `symbol`; the simple one if there is none. -/
def ofSymbol (symbol : Text) : Operator :=
  match symbol with
  | [c] => (ofChar? c).getD simple
  | _ => simple

/-- The name of the operator written as the operator's symbol. -/
def name (op : Operator) : Text :=
  match op.symbol with
  | [c] => ((table.find? fun e => c = e.1).map fun e => (e.2.2 : Text)).getD "simple"
  | _ => "simple"

end Operator

end UriTemplate
