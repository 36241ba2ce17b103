import UriTemplate.Catalog.Load
import UriTemplate.CommandLine.Values
import UriTemplate.Json.Printer

/-!
# Runs

* `Environment` — what a run is given besides its arguments, `Outcome` — what it leaves;
* `Invocation.output` — the text that an invocation asks for;
* `run` — the outcome of a command line.
-/

namespace UriTemplate.CommandLine

structure Environment where
  files : FileSystem
  /-- The reader of the documents that catalogs are written as. -/
  reader : DocumentReader
  input : Bytes := []
  /-- The path of the catalog, unless an option gives it. -/
  config : Option Text := none
  /-- Anything but an empty text turns on the journal. -/
  debug : Option Text := none

inductive Outcome
  | finished (status : Nat) (output errors : Text)
  /-- A fault that is not reported in one line. -/
  | failed (e : Fault)
  /-- The arguments are wrong. -/
  | usage
  /-- The arguments ask how they are used. -/
  | help
deriving DecidableEq

def version : Text := "0.1.0"

def versionLine : Text := ("urit " : Text) ++ version ++ ("\n" : Text)

namespace Invocation

variable (i : Invocation) (env : Environment)

def catalogPath : Path :=
  match i.config with
  | none | some [] => Catalog.defaultPath env.files env.config
  | some path => Path.ofText path

def catalog : Journal Catalog := Catalog.load env.reader env.files (i.catalogPath env)

/-- The name behind the at sign. -/
def catalogName? (template : Text) : Option Text :=
  match template with
  | c :: name => if c = '@' then some name else none
  | [] => none

def parse (source : Text) : Journal Template := do
  match ← (Journal.parse source).run with
  | .ok t => return t
  | .error e => throw (.ofParseFailure e)

/-- The template that an argument gives. -/
def template (argument : Text) : Journal Template := do
  match catalogName? argument with
  | some name => Journal.ofExcept ((← i.catalog env).get name)
  | none => parse argument

/-- An expansion that begins with nothing used up. -/
def expansion (a : Act Text) : Journal Text := Journal.ofExcept (a {}).1

def expand (argument : Text) (values : ValueOptions) : Journal Text := do
  let values ← Journal.ofExcept (values.read env.files env.input)
  Journal.log (.expanding argument (Text.sort values.keys))
  let entries := values.map fun e => (Value.text e.1, e.2)
  match catalogName? argument with
  | some name => expansion ((← i.catalog env).expand name entries)
  | none => expansion ((← parse argument).expand [.value (.mapping entries)] [])

def describeReference (v : VariableReference) : Json.Tree :=
  .object [("name", .text v.name), ("characterLimit", v.limit.elim .null .int), ("explode", .bool v.explode)]

def describeElement (e : Element) : Json.Tree :=
  match e with
  | .expression span op vs =>
    .object [("type", .text "expression"), ("text", .text span.text), ("operator", .text op.symbol),
      ("variables", .array (vs.map describeReference))]
  | .literal span | .bare span => .object [("type", .text "text"), ("text", .text span.text)]

/-- The structure of a template. -/
def describe (t : Template) : Json.Tree :=
  .object [("source", .text t.source), ("elements", .array (t.elements.map describeElement))]

def nameTree (key : Text) (ts : List Text) : Json.Tree := .object [(key, .array (ts.map .text))]

/-- The text that the invocation asks for, without its last line feed. -/
def output : Journal Text := do
  match i.command with
  | .expand argument values => i.expand env argument values
  | .parse argument => return (describe (← i.template env argument)).print 0
  | .names argument => return (nameTree "variables" (← i.template env argument).declaredNames).print 0
  | .list => return (nameTree "templates" (← i.catalog env).names).print 0

/-- Carries out an invocation.  A text that cannot be written out is a fault too. -/
def outcome : Outcome :=
  let written : Journal Text := do
    let text := (← i.output env) ++ ("\n" : Text)
    match Utf8.encode text with
    | .ok _ => return text
    | .error e => throw (.unencodable e)
  let (result, entries) := written []
  let debugging := i.verbose || env.debug.any (· ≠ [])
  let journal : Text := (entries.filter fun e => debugging || e.isWarning).flatMap (·.line)
  match result with
  | .ok text => .finished 0 text journal.escaped
  | .error e =>
    let errors : Text := journal ++ e.message.stripEnd ++ ("\n" : Text)
    if e.isReported then .finished 2 [] errors.escaped else .failed e

end Invocation

/-- Carries out a command line. -/
def run (args : List Text) (env : Environment) : Outcome :=
  match Invocation.ofArguments args with
  | .ok i => i.outcome env
  | .error .usage => .usage
  | .error .version => .finished 0 versionLine []
  | .error .help => .help

end UriTemplate.CommandLine
