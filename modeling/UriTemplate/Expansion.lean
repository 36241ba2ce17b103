import UriTemplate.Resolver
import UriTemplate.Serialize
import UriTemplate.Template.Basic

/-!
# Expansion

A template is expanded from left to right into a sink; what was written before a fault stays there.

* `Output` — the text in the sink, and the world; `Emit` — an action that also writes, `Emit.write` and
  `Emit.perform`;
* `emitUnit`, `emitReference`, `emitExpression`, `emitElements` — the expansion of the parts of a template;
* `Template.expandTo`, `Template.expand` — the expansion of a template, into a sink and as a text.
-/

namespace UriTemplate

/-- What an expansion changes: the text in the sink, and the world.  The text is kept with the latest character
first, so that writing takes no longer the more there is. -/
structure Output where
  written : Text := []
  world : World := {}
deriving DecidableEq

namespace Output

/-- The text in the sink. -/
def sink (o : Output) : Text := o.written.reverse

/-- The output with this text in its sink. -/
def ofSink (sink : Text) (world : World) : Output := { written := sink.reverse, world }

@[simp] theorem sink_ofSink (sink : Text) (world : World) : (ofSink sink world).sink = sink := by
  simp [Output.sink, ofSink]

/-- The output after `t` is written to the sink. -/
def write (o : Output) (t : Text) : Output := { o with written := t.reverse ++ o.written }

@[simp] theorem sink_write (o : Output) (t : Text) : (o.write t).sink = o.sink ++ t := by
  simp [sink, write]

@[simp] theorem world_write (o : Output) (t : Text) : (o.write t).world = o.world := rfl

end Output

/-- An action that writes to a sink. -/
abbrev Emit (α : Type) := ExceptT Fault (StateM Output) α

namespace Emit

def write (t : Text) : Emit Unit := modify (·.write t)

/-- An action that writes nothing. -/
def perform {α : Type} (a : Act α) : Emit α := fun o =>
  let (result, world) := a o.world
  (result, { o with world })

end Emit

/-- Writes one unit of an expression: what separates it from the one before, or opens the expression; its name with
an equals sign, if it is named; its text. -/
def emitUnit (op : Operator) (continued named : Bool) (name text : Text) : Emit Unit := do
  if continued then Emit.write op.separator else Emit.write (op.first.getD [])
  if named then
    Emit.write name
    if op.emptyEquals || text ≠ [] then Emit.write "="
  Emit.write text

/-- Writes every item that has a text as a unit of its own.  The answer, here and below, is whether the expression
has a unit by now. -/
def emitItems (op : Operator) (name : Text) : Bool → List Value → Emit Bool
  | continued, [] => return continued
  | continued, v :: vs => do
    match ← Emit.perform (serialize op.policy none v) with
    | none => emitItems op name continued vs
    | some text =>
      emitUnit op continued op.named name text
      emitItems op name true vs

/-- Writes every pair whose value has a text as a unit that is named by its key. -/
def emitPairs (op : Operator) : Bool → List (Value × Value) → Emit Bool
  | continued, [] => return continued
  | continued, (key, v) :: pairs => do
    match ← Emit.perform (serialize op.policy none v) with
    | none => emitPairs op continued pairs
    | some text =>
      let key ← Emit.perform (serialize op.policy none key)
      emitUnit op continued true (key.getD []) text
      emitPairs op true pairs

/-- Writes the units of a reference. -/
def emitReference (resolve : Resolver) (op : Operator) (continued : Bool) (v : VariableReference) : Emit Bool := do
  let classified ← Emit.perform (resolve v.name >>= classify)
  match classified, v.explode with
  | .mapping pairs, true => emitPairs op continued pairs
  | .sequence items, true => emitItems op v.name continued items
  | classified, _ =>
    match ← Emit.perform (serializeClassified op.policy v.limit classified) with
    | none => return continued
    | some text =>
      emitUnit op continued op.named v.name text
      return true

def emitReferences (resolve : Resolver) (op : Operator) : Bool → List VariableReference → Emit Unit
  | _, [] => return
  | continued, v :: vs => do
    let continued ← emitReference resolve op continued v
    emitReferences resolve op continued vs

def emitElement (resolve : Resolver) : Element → Emit Unit
  | .literal span => Emit.write span.text
  | .expression _ op vs => emitReferences resolve op false vs
  | .bare _ => throw .bareElement

def emitElements (resolve : Resolver) : List Element → Emit Unit
  | [] => return
  | e :: es => do
    emitElement resolve e
    emitElements resolve es

/-- Expands elements into a text. -/
def expandElements (resolve : Resolver) (elements : List Element) : Act Text := fun world =>
  let (result, output) := emitElements resolve elements { world }
  (result.map fun _ => output.sink, output.world)

namespace Template

/-- Expands a template into a sink, with the values of a call. -/
def expandTo (t : Template) (sources : List Source) (named : Table Text Value) : Emit Unit := do
  match Resolver.ofSources sources named with
  | .error e => throw e
  | .ok resolve => emitElements resolve t.elements

/-- Expands a template into a text. -/
def expand (t : Template) (sources : List Source) (named : Table Text Value) : Act Text := fun world =>
  let (result, output) := t.expandTo sources named { world }
  (result.map fun _ => output.sink, output.world)

end Template

/-- Parses a text and expands it. -/
def expand (source : Text) (sources : List Source) (named : Table Text Value) : Act Text :=
  match Template.parse source with
  | .error e => throw (.ofParseFailure e)
  | .ok t => t.expand sources named

end UriTemplate
