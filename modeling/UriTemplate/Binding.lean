import UriTemplate.Expansion
import UriTemplate.Value.Display

/-!
# Bindings

A binding is a template together with values for its variables, which are set one by one.

* `Binding.set`, `Binding.get`, `Binding.clear` — the values, under the names that the template declares;
* `Binding.ofValues` — the binding that has been assigned a list of values;
* `Binding.expand` — the template expanded with the values.

What is stored under a name is a parameter of the type: a value, or a reference to one.
-/

namespace UriTemplate

structure Binding (α : Type) where
  template : Template
  values : Table Text α := []

namespace Binding

variable {α β : Type} (b : Binding α)

/-- Whether the template declares the name. -/
def declares (name : Text) : Bool := b.template.mentions name

def set (name : Text) (value : α) : Except Fault (Binding α) :=
  if b.declares name then .ok { b with values := b.values.put name value } else .error (.unknownVariable name)

/-- What is stored under a name, if anything is. -/
def get (name : Text) : Except Fault (Option α) :=
  if b.declares name then .ok (b.values.get? name) else .error (.unknownVariable name)

def clear : Binding α := { b with values := [] }

/-- A binding of `template` with the given values, assigned in order. -/
def ofValues (template : Template) (values : List (Text × α)) : Except Fault (Binding α) :=
  values.foldlM (fun b e => b.set e.1 e.2) { template }

/-- The same binding with other stored things. -/
def map (f : α → β) : Binding β := { template := b.template, values := b.values.map fun e => (e.1, f e.2) }

def expand (b : Binding Value) : Act Text :=
  b.template.expand [.value (.mapping (b.values.map fun e => (.text e.1, e.2)))] []

/-- How a binding is shown: the template's source in quotes, and the values. -/
def display (b : Binding Value) : Except Fault Text := do
  let values ← Value.display (.mapping (b.values.map fun e => (.text e.1, e.2)))
  return ("BoundTemplate(" : Text) ++ b.template.source.quoted ++ (", " : Text) ++ values ++ (")" : Text)

end Binding

end UriTemplate
