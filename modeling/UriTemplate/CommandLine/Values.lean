import UriTemplate.CommandLine.Invocation
import UriTemplate.Fault
import UriTemplate.Files
import UriTemplate.Json.Reader
import UriTemplate.Text.Blank

/-!
# Values on the command line

* `assignment` — a name and what is assigned to it;
* `listValue`, `mapValue` — a list of texts, a mapping of texts to texts;
* `ValueOptions.read` — the values of all options.  Mappings count more than lists, lists more than single values, and
  these more than the values of a JSON file.
-/

namespace UriTemplate.CommandLine

/-- The parts of `NAME=VALUE`; blanks around the name do not count. -/
def assignment (spec : Text) : Except Fault (Text × Text) :=
  match Text.splitFirst '=' spec with
  | none => .error (.option (.noEquals spec))
  | some (name, value) => if name.strip = [] then .error (.option (.emptyName spec)) else .ok (name.strip, value)

/-- Items with commas between them; an empty text has none. -/
def listValue (value : Text) : Value :=
  if value = [] then .list [] else .list ((Text.split ',' value).map .text)

/-- Assignments with commas between them; empty ones do not count. -/
def mapValue (value : Text) : Except Fault Value := do
  let pairs ← ((Text.split ',' value).filter (· ≠ [])).mapM assignment
  return .mapping ((Table.ofList pairs).map fun e => (.text e.1, .text e.2))

/-- How a specification that is missing is reported. -/
def missing : Text := "[]"

/-- Assigns values to names, one specification after another. -/
def assignAll (read : Text → Except Fault Value) (values : Table Text Value) (specs : List (Option Text)) :
    Except Fault (Table Text Value) :=
  specs.foldlM (fun values spec => do
    let (name, value) ← assignment (spec.getD missing)
    return values.put name (← read value)) values

/-- The names and values of a JSON object. -/
def objectValues : Value → Except Fault (Table Text Value)
  | .mapping entries => .ok (entries.filterMap fun e => match e.1 with
    | .text name => some (name, e.2)
    | _ => none)
  | _ => .error (.option .jsonNotObject)

/-- The values in a JSON text. -/
def jsonValues (content : Bytes) : Except Fault (Table Text Value) := do
  match readText content with
  | .error e => throw (.undecodable e)
  | .ok text =>
    match Json.read text with
    | .error (.malformed mistake) => throw (.option (.jsonMalformed mistake.message))
    | .error (.numeralTooLong n) => throw (.numeralTooLong n)
    | .ok v => objectValues v

/-- The bytes that a `--json` option names: those of a file, or of the standard input for a hyphen. -/
def jsonContent (fs : FileSystem) (input : Bytes) (place : Text) : Except Fault Bytes :=
  if place = Text.ofString "-" then .ok input
  else
    let path := Path.ofText place
    match fs.entry? path with
    | some (.file content) | some (.device content) => .ok content
    | some .directory => .error (.isDirectory path.render)
    | some .tooLong => .error (.pathTooLong path.render)
    | none => .error (.option (.jsonNotFound path.render))

namespace ValueOptions

def read (o : ValueOptions) (fs : FileSystem) (input : Bytes) : Except Fault (Table Text Value) := do
  let values ← match o.json with
    | none | some [] => pure []
    | some place => jsonValues (← jsonContent fs input place)
  let values ← assignAll (fun v => .ok (.text v)) values o.defines
  let values ← assignAll (fun v => .ok (listValue v)) values o.lists
  assignAll mapValue values o.maps

end ValueOptions

end UriTemplate.CommandLine
