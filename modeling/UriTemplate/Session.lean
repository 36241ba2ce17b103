import UriTemplate.Binding

/-!
# Sessions

A session holds templates, bindings, sinks and values under names and changes them step by step.  Values are shared:
a binding and its copies hold the same value, and a change to the value shows in all of them.  The table of a binding has
a place too, and is changed there; a copy gets a table of its own.

* `Session`, `Session.Object` — what is held, under which names;
* `Session.Step`, `Session.Reply` — what is asked for, and the answer;
* `Session.run` — the effect of a step.  A step that fails changes no name, but what it wrote to a sink stays
  written, and what it read of a stream stays used up.
-/

namespace UriTemplate

/-- The place of a shared value. -/
abbrev Session.Ref := Nat

/-- The place of the table of a binding. -/
abbrev Session.Place := Nat

/-- What a name of a session may stand for.  An expander is a source that any template can be expanded with. -/
inductive Session.Object
  | template (t : Template)
  | binding (t : Template) (place : Session.Place)
  | sink (content : Text)
  | value (ref : Session.Ref)
  | expander (source : Source)

structure Session where
  objects : Table Text Session.Object := []
  /-- The shared values, in the order of their places. -/
  values : List Source := []
  /-- The tables of bindings, in the order of their places. -/
  tables : List (Table Text Session.Ref) := []
  world : World := {}

/-- A value given in a step, or the name of a value that the session holds. -/
inductive Session.Operand
  | given (source : Source)
  | held (id : Text)

/-- The values of a call: positional ones and named ones. -/
structure Session.CallValues where
  sources : List Source := []
  named : Table Text Value := []
  /-- The name of a held value that comes before the positional ones. -/
  using? : Option Text := none

inductive Session.Step
  | template (id source : Text)
  | sink (id : Text)
  | write (id text : Text)
  | content (id : Text)
  | expandTo (sink template : Text) (values : Session.CallValues)
  | value (id : Text) (source : Source)
  | put (id name : Text) (value : Value)
  | reparse (id template : Text)
  | bind (id template : Text) (values : List (Text × Value))
  | bound (id template : Text) (values : List (Text × Value))
  | copy (id binding : Text)
  | expander (id : Text) (source : Source)
  | run (id template : Text)
  | expand (id : Text) (values : Session.CallValues)
  | set (id name : Text) (operand : Session.Operand)
  | get (id name : Text)
  | append (id name : Text) (value : Value)
  | contains (id : Text) (name : Value)
  | clear (id : Text)
  | textOf (id : Text)
  | display (id : Text)
  | size (id : Text)

inductive Session.Reply
  | nothing
  | bool (b : Bool)
  | count (n : Nat)
  | text (t : Text)
  | names (ts : List Text)
  | value (v : Value)

namespace Session

/-- A step on a session: a fault leaves the names alone. -/
abbrev Run (α : Type) := ExceptT Fault (StateM Session) α

def object (id : Text) : Run Object := do
  match (← get).objects.get? id with
  | some o => return o
  | none => throw (.raised { message := ("No object " : Text) ++ id })

def wrongObject {α : Type} (id : Text) : Run α := throw (.raised { message := ("Not possible with " : Text) ++ id })

def store (id : Text) (o : Object) : Run Unit := modify fun s => { s with objects := s.objects.put id o }

def getTemplate (id : Text) : Run Template := do
  match ← object id with
  | .template t => return t
  | _ => wrongObject id

/-- The binding whose table is at a place. -/
def bindingAt (t : Template) (place : Place) : Run (Binding Ref) :=
  return { template := t, values := (← get).tables.getD place [] }

/-- The place of the table of a binding, and the binding. -/
def locate (id : Text) : Run (Place × Binding Ref) := do
  match ← object id with
  | .binding t place => return (place, ← bindingAt t place)
  | _ => wrongObject id

def getBinding (id : Text) : Run (Binding Ref) := return (← locate id).2

def getSink (id : Text) : Run Text := do
  match ← object id with
  | .sink content => return content
  | _ => wrongObject id

def getRef (id : Text) : Run Ref := do
  match ← object id with
  | .value ref => return ref
  | _ => wrongObject id

/-- A new shared value. -/
def share (source : Source) : Run Ref := do
  let s ← get
  set { s with values := s.values ++ [source] }
  return s.values.length

/-- A new binding, with a table of its own. -/
def allocate (b : Binding Ref) : Run Object := do
  let s ← get
  set { s with tables := s.tables ++ [b.values] }
  return .binding b.template s.tables.length

/-- Changes the table at a place. -/
def replaceTable (place : Place) (values : Table Text Ref) : Run Unit :=
  modify fun s => { s with tables := s.tables.set place values }

def deref (ref : Ref) : Run Source := return (← get).values.getD ref (.value .null)

def liftExcept {α : Type} : Except Fault α → Run α
  | .ok a => return a
  | .error e => throw e

def perform {α : Type} (a : Act α) : Run α := fun s =>
  let (result, world) := a s.world
  (result, { s with world })

def parse (source : Text) : Run Template :=
  match Template.parse source with
  | .ok t => return t
  | .error e => throw (.ofParseFailure e)

/-- The positional values of a call. -/
def CallValues.all (values : CallValues) : Run (List Source) := do
  match values.using? with
  | none => return values.sources
  | some id => return (← deref (← getRef id)) :: values.sources

/-- The binding with the values themselves in place of their places. -/
def dereferenced (b : Binding Ref) : Run (Binding Value) := do
  let values := (← get).values
  return b.map fun ref => (values.getD ref (.value .null)).asValue

/-- The text that an object is expanded to. -/
def expand (id : Text) (values : CallValues) : Run Text := do
  match ← object id with
  | .template t => perform (t.expand (← CallValues.all values) values.named)
  | .binding t place => perform (← dereferenced (← bindingAt t place)).expand
  | _ => wrongObject id

def expandTo (sink template : Text) (values : CallValues) : Run Unit := do
  let content ← getSink sink
  let t ← getTemplate template
  let sources ← CallValues.all values
  let (result, output) := (t.expandTo sources values.named) (.ofSink content (← get).world)
  modify fun s => { s with world := output.world }
  store sink (.sink output.sink)
  liftExcept result

def operand : Operand → Run Ref
  | .given source => share source
  | .held id => getRef id

/-- Shares the values of a list of entries. -/
def shareAll (values : List (Text × Value)) : Run (List (Text × Ref)) :=
  values.mapM fun e => return (e.1, ← share (.value e.2))

/-- Replaces a shared value. -/
def update (ref : Ref) (source : Source) : Run Unit := modify fun s => { s with values := s.values.set ref source }

def put (id name : Text) (value : Value) : Run Unit := do
  let ref ← getRef id
  match ← deref ref with
  | .value (.mapping entries) => update ref (.value (.mapping (Table.put entries (.text name) value)))
  | _ => wrongObject id

def append (id name : Text) (value : Value) : Run Unit := do
  let b ← getBinding id
  match ← liftExcept (b.get name) with
  | none => throw (.notAppendable Value.null.typeName)
  | some ref =>
    match (← deref ref).asValue with
    | .list items => update ref (.value (.list (items ++ [value])))
    | v => throw (.notAppendable v.typeName)

/-- Whether a template or a binding has a variable of this name.  A binding looks names up as keys, and a set as if it
could not change. -/
def contains (id : Text) (name : Value) : Run Bool := do
  match ← object id, name with
  | .template t, .text name => return t.mentions name
  | .template _, _ => return false
  | .binding t _, .text name => return t.mentions name
  | .binding _ _, .sequence .set _ => return false
  | .binding _ _, name =>
    match name.changeable? with
    | some type => throw (.unusableKey type)
    | none => return false
  | _, _ => wrongObject id

/-- The text of an object: a template's source, or what a binding is expanded to. -/
def textOf (id : Text) : Run Text := do
  match ← object id with
  | .template t => return t.source
  | .binding t place => perform (← dereferenced (← bindingAt t place)).expand
  | _ => wrongObject id

def display (id : Text) : Run Text := do
  match ← object id with
  | .template t => return t.display
  | .binding t place => liftExcept (← dereferenced (← bindingAt t place)).display
  | _ => wrongObject id

/-- The effect of a step, and its answer. -/
def effect : Step → Run Reply
  | .template id source => do
    let t ← parse source
    store id (.template t)
    return .names t.declaredNames
  | .sink id => do store id (.sink []); return .nothing
  | .write id text => do
    let content := (← getSink id) ++ text
    store id (.sink content)
    return .text content
  | .content id => return .text (← getSink id)
  | .expandTo sink template values => do expandTo sink template values; return .nothing
  | .value id source => do store id (.value (← share source)); return .nothing
  | .put id name value => do put id name value; return .nothing
  | .reparse id template => do
    let t ← getTemplate template
    let u ← parse t.source
    store id (.template u)
    return .bool (t == u)
  | .bind id template values => do
    let b ← liftExcept (Binding.ofValues (← getTemplate template) (← shareAll values))
    store id (← allocate b)
    return .nothing
  | .bound id template values => do
    let b := { template := ← getTemplate template, values := Table.ofList (← shareAll values) }
    store id (← allocate b)
    return .nothing
  | .copy id binding => do
    store id (← allocate (← getBinding binding))
    return .bool true
  | .expander id source => do
    let _ ← liftExcept (Resolver.ofSource source)
    store id (.expander source)
    return .nothing
  | .run id template => do
    match ← object id with
    | .expander source =>
      let t ← parse template
      return .text (← perform (t.expand [source] []))
    | _ => wrongObject id
  | .expand id values => return .text (← expand id values)
  | .set id name o => do
    let (place, b) ← locate id
    let b ← liftExcept (b.set name (← operand o))
    replaceTable place b.values
    return .nothing
  | .get id name => do
    match ← liftExcept ((← getBinding id).get name) with
    | none => return .value .null
    | some ref => return .value (← deref ref).asValue
  | .append id name value => do append id name value; return .nothing
  | .contains id name => return .bool (← contains id name)
  | .clear id => do
    let (place, b) ← locate id
    replaceTable place b.clear.values
    return .nothing
  | .textOf id => return .text (← textOf id)
  | .display id => return .text (← display id)
  | .size id => return .count (← getTemplate id).elements.length

/-- Runs a step and gives the answer or the fault, with the session after it. -/
def step (s : Session) (step : Step) : Except Fault Reply × Session := effect step s

/-- The answers to a list of steps. -/
def run (s : Session) : List Step → List (Except Fault Reply)
  | [] => []
  | x :: xs => let (reply, s) := s.step x; reply :: s.run xs

end Session

end UriTemplate
