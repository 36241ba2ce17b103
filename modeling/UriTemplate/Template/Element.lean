import UriTemplate.Template.Operator

/-!
# Elements

A template is a sequence of literals and expressions.

* `VariableReference`, `Element` — what a template is made of;
* `Element.render` — the text of an element in its shortest spelling;
* `Element.names` — the variable names that an element refers to, in order.
-/

namespace UriTemplate

/-- A variable in an expression, with its modifiers: a limit on the length of its value, or that the members
of its value are written one by one. -/
structure VariableReference where
  name : Text
  limit : Option Int := none
  explode : Bool := false
deriving DecidableEq

def VariableReference.render (v : VariableReference) : Text :=
  match v.limit with
  | some n => v.name ++ (':' : CodePoint) :: Text.ofInt n
  | none => if v.explode then v.name ++ [('*' : CodePoint)] else v.name

/-- A part of a source text: what stands there and the offsets of its ends. -/
structure Span where
  text : Text
  start : Nat
  stop : Nat
deriving DecidableEq

/-- A `bare` element is neither a literal nor an expression; it has no expansion. -/
inductive Element
  | literal (span : Span)
  | expression (span : Span) (operator : Operator) (references : List VariableReference)
  | bare (span : Span)
deriving DecidableEq

namespace Element

def span : Element → Span
  | literal s | expression s _ _ | bare s => s

def isExpression : Element → Bool
  | expression .. => true
  | _ => false

def references : Element → List VariableReference
  | expression _ _ vs => vs
  | _ => []

def names (e : Element) : List Text := e.references.map (·.name)

def render : Element → Text
  | literal s | bare s => s.text
  | expression _ op vs => ('{' : CodePoint) :: op.symbol ++ Text.join "," (vs.map (·.render)) ++ [('}' : CodePoint)]

end Element

end UriTemplate
