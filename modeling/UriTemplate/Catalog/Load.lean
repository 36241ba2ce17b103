import UriTemplate.Catalog.Basic
import UriTemplate.Document
import UriTemplate.Files

/-!
# Catalog files

* `Catalog.load` — the catalog in a file;
* `Catalog.defaultPath` — where the catalog is if no other place is named.
-/

namespace UriTemplate.Catalog

/-- The values that are as good as an empty document. -/
def isBlankDocument : Value → Bool
  | .null => true
  | .scalar (.bool b) => !b
  | .scalar (.text t) => t = []
  | .scalar (.int i) => i = 0
  | .scalar (.float (.finite _ m _)) => m = 0
  | .scalar (.bytes data) => data.isEmpty
  | .sequence .list items | .sequence .set items => items.isEmpty
  | .mapping entries => entries.isEmpty
  | _ => false

/-- The mapping in a catalog file. -/
def readDocument (reader : DocumentReader) (path : Text) (content : Bytes) : Except Fault (List (Value × Value)) :=
  match readText content with
  | .error e => .error (.undecodable e)
  | .ok text =>
    match reader text with
    | .error (.rejected message) => .error (.catalog (.unreadable path message))
    | .error (.raised r) => .error (.raised r)
    | .ok (.mapping entries) => .ok entries
    | .ok v => if isBlankDocument v then .ok [] else .error (.catalog (.notMapping path))

def load (reader : DocumentReader) (fs : FileSystem) (path : Path) : Journal Catalog := do
  let place := path.render
  match fs.entry? path with
  | some (.file content) =>
    let catalog ← ofEntries (← Journal.ofExcept (readDocument reader place content)) place
    Journal.log (.loaded catalog.templates.length place)
    return catalog
  | some .tooLong => throw (.pathTooLong place)
  | some .directory | some (.device _) | none => throw (.catalog (.notFound place))

def defaultName : Text := "uri-templates.yaml"

/-- The path that the environment gives, if it gives one; else a file in the working directory. -/
def defaultPath (fs : FileSystem) (configured : Option Text) : Path :=
  match configured with
  | none | some [] => fs.workingDirectory.child defaultName
  | some path => Path.ofText path

end UriTemplate.Catalog
