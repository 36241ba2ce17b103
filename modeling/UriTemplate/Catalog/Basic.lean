import UriTemplate.Expansion
import UriTemplate.Journal

/-!
# Catalogs

A catalog holds templates under names, and default values of variables, which count where a call gives none.

* `Catalog.ofEntries` — the catalog that a mapping describes;
* `Catalog.names`, `Catalog.get`, `Catalog.expand` — its templates.
-/

namespace UriTemplate

structure Catalog where
  templates : Table Text Template := []
  defaults : Table Text Value := []
  path : Option Text := none

namespace Catalog

def names (c : Catalog) : List Text := Text.sort c.templates.keys

def get (c : Catalog) (name : Text) : Except Fault Template :=
  match c.templates.get? name with
  | some t => .ok t
  | none => .error (.catalog (.unknownTemplate name))

/-- The defaults with the values of a call over them. -/
def merged (c : Catalog) (values : List (Value × Value)) : List (Value × Value) :=
  Table.update (c.defaults.map fun e => (.text e.1, e.2)) values

/-- Expands the template `name`.  A null among the values hides a default. -/
def expand (c : Catalog) (name : Text) (values : List (Value × Value)) : Act Text :=
  match c.get name with
  | .ok t => t.expand [.value (.mapping (c.merged values))] []
  | .error e => throw e

/-! ## catalogs from mappings -/

/-- The entry `key` of a mapping, or none if it is null. -/
def section? (entries : List (Value × Value)) (key : String) : Option Value :=
  match Table.get? entries (.text key) with
  | none | some .null => none
  | some v => some v

/-- Adds the template of an entry. -/
def addTemplate (place : Text) (templates : Table Text Template) (key source : Value) :
    Journal (Table Text Template) := do
  match source with
  | .text source =>
    match ← (Journal.parse source).run with
    | .ok t => return templates.put (← Journal.ofExcept key.keyText) t
    | .error (.malformed e) => throw (.catalog (.malformed place (← Journal.ofExcept key.keyText) e))
    | .error e => throw (.ofParseFailure e)
  | _ => throw (.catalog (.templateNotText place (← Journal.ofExcept key.keyText)))

def addTemplates (place : Text) (templates : Table Text Template) :
    List (Value × Value) → Journal (Table Text Template)
  | [] => return templates
  | (key, source) :: entries => do addTemplates place (← addTemplate place templates key source) entries

def isKnownKey (key : Value) : Bool := key == .text "templates" || key == .text "variables"

/-- Notes the keys that mean nothing. -/
def noteUnknownKeys (place : Text) (entries : List (Value × Value)) : Journal Unit := do
  match (entries.map (·.1)).filter (!isKnownKey ·) with
  | [] => return
  | keys => Journal.log (.ignoredKeys place (Text.sort (← Journal.ofExcept (keys.mapM Value.keyText))))

/-- The catalog that a mapping describes.  Keys that are not texts become texts. -/
def ofEntries (entries : List (Value × Value)) (path : Option Text) : Journal Catalog := do
  let place := path.getD "<catalog>"
  noteUnknownKeys place entries
  let templates ← match section? entries "templates" with
    | none => pure []
    | some (.mapping templates) => pure templates
    | some _ => throw (.catalog (.templatesNotMapping place))
  let defaults ← match section? entries "variables" with
    | none => pure []
    | some (.mapping defaults) => pure defaults
    | some _ => throw (.catalog (.variablesNotMapping place))
  let templates ← addTemplates place [] templates
  let names ← Journal.ofExcept (defaults.mapM fun e => e.1.keyText)
  return { templates, defaults := Table.ofList (names.zip (defaults.map (·.2))), path }

end Catalog

end UriTemplate
