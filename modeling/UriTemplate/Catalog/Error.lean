import UriTemplate.Template.ParseError

/-!
# Catalog errors

* `CatalogError` — why a catalog is not built, or a template not found in it;
* `CatalogError.message`, `CatalogError.cause` — how the error is reported.
-/

namespace UriTemplate

/-- `place` is the path of the catalog's file, or what stands for it. -/
inductive CatalogError
  | unknownTemplate (name : Text)
  | notFound (path : Text)
  /-- The text of the file is no document, and what the reader of documents says about it. -/
  | unreadable (path message : Text)
  | notMapping (path : Text)
  | templatesNotMapping (place : Text)
  | variablesNotMapping (place : Text)
  | templateNotText (place name : Text)
  | malformed (place name : Text) (e : ParseError)
deriving DecidableEq

namespace CatalogError

def message : CatalogError → Text
  | unknownTemplate name => ("Unknown template '" : Text) ++ name ++ ("'" : Text)
  | notFound path => ("Template catalog not found: " : Text) ++ path
  | unreadable path message => ("Failed to parse YAML in " : Text) ++ path ++ (": " : Text) ++ message
  | notMapping path => ("YAML must be a mapping: " : Text) ++ path
  | templatesNotMapping place => place ++ (": 'templates' must be a mapping" : Text)
  | variablesNotMapping place => place ++ (": 'variables' must be a mapping" : Text)
  | templateNotText place name => place ++ (": template '" : Text) ++ name ++ ("' must be a string" : Text)
  | malformed place name e => place ++ (": template '" : Text) ++ name ++ ("': " : Text) ++ e.message

/-- The parse error behind the error. -/
def cause : CatalogError → Option ParseError
  | malformed _ _ e => some e
  | _ => none

end CatalogError

end UriTemplate
