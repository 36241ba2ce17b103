import UriTemplate.Action
import UriTemplate.Value.Display

/-!
# Resolvers

A resolver gives the value of a name, or null.

* `Resolver.null`, `Resolver.ofTable`, `Resolver.pair`, `Resolver.chain` — simple resolvers and their combination;
* `Source` — what an expansion may be given in place of a resolver;
* `Resolver.ofSources` — the resolver of the sources and named values of a call.
-/

namespace UriTemplate

abbrev Resolver := Text → Act Value

/-- A value, or something that is asked for the value of a name: a document, a function, or a document that can be
called as well.  These have a text of their own, in case that they take the place of a value. -/
inductive Source
  | value (v : Value)
  | document (resolve : Resolver) (text : Except Raised Text := .ok [])
  | function (call : Resolver) (text : Except Raised Text := .ok [])
  | callableDocument (resolve call : Resolver) (text : Except Raised Text := .ok [])

/-- A source in the place of a value. -/
def Source.asValue : Source → Value
  | .value v => v
  | .document _ text | .function _ text | .callableDocument _ _ text => .scalar (.object text)

namespace Resolver

def null : Resolver := fun _ => return .null

/-- The values of a table. -/
def ofTable (values : Table Text Value) : Resolver := fun name => return (values.get? name).getD .null

/-- The values of a mapping's text keys. -/
def ofEntries (entries : List (Value × Value)) : Resolver := fun name =>
  return (Table.get? entries (.text name)).getD .null

/-- A single value under its name. -/
def pair (name : Text) (value : Value) : Resolver := fun asked => return if asked = name then value else .null

/-- The first value of several resolvers that is not null; the resolvers behind it are not asked. -/
def chain : List Resolver → Resolver
  | [] => null
  | r :: rs => fun name => do
    let value ← r name
    if value.isNull then chain rs name else return value

/-- A resolver that notes the names it is asked for. -/
def noting (r : Resolver) : Resolver := fun name => do
  Act.note name
  r name

/-- The resolver of a single source.  A document that can be called is asked as a document. -/
def ofSource : Source → Except Fault Resolver
  | .value .null => .ok null
  | .value (.mapping entries) => .ok (ofEntries entries)
  | .document resolve _ | .callableDocument resolve _ _ => .ok resolve
  | .function call _ => .ok call
  | .value (.sequence .tuple [.text name, value]) => .ok (pair name value)
  | .value v => .error (.unusableSource v.typeName)

/-- The resolver of the sources of a call: none, one, or a name and its value. -/
def ofPositional : List Source → Except Fault (Option Resolver)
  | [] => .ok none
  | [source] => some <$> ofSource source
  | [.value (.text name), source] => .ok (some (pair name source.asValue))
  | sources => .error (.tooManySources sources.length)

/-- The resolver of a call.  Named values come before the sources, unless they are null. -/
def ofSources (sources : List Source) (named : Table Text Value) : Except Fault Resolver := do
  match ← ofPositional sources, named with
  | r, [] => return r.getD null
  | none, named => return ofTable named
  | some r, named => return chain [ofTable named, r]

end Resolver

end UriTemplate
