import UriTemplate.Template.Parser
import UriTemplate.Text.Quoted

/-!
# Templates

* `Template` — a source text with its elements;
* `Template.parse` — the template of a text;
* `Template.names`, `Template.declaredNames` — the names it refers to, in order, with and without repetitions.
-/

namespace UriTemplate

structure Template where
  source : Text
  elements : List Element

namespace Template

def parse (source : Text) : Except ParseFailure Template := do
  return { source, elements := ← parseElements source }

/-- The names of all references, in the order of the source. -/
def names (t : Template) : List Text := t.elements.flatMap Element.names

/-- The distinct names, each at its first place. -/
def declaredNames (t : Template) : List Text := t.names.eraseDups

/-- Whether a reference has this name. -/
def mentions (t : Template) (name : Text) : Bool := t.names.contains name

def expressions (t : Template) : List Element := t.elements.filter Element.isExpression

/-- Templates are the same if their sources are. -/
instance : BEq Template := ⟨fun a b => a.source == b.source⟩

/-- How a template is shown: its source in quotes. -/
def display (t : Template) : Text := ("Template(" : Text) ++ t.source.quoted ++ (")" : Text)

end Template

end UriTemplate
