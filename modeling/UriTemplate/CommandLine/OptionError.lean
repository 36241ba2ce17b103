import UriTemplate.Text.Basic

/-!
# Errors in option values

* `OptionError` — why a value given on the command line is refused, with its message.
-/

namespace UriTemplate

inductive OptionError
  | noEquals (spec : Text)
  | emptyName (spec : Text)
  | jsonNotFound (path : Text)
  /-- What is wrong with a JSON text, and where. -/
  | jsonMalformed (message : Text)
  | jsonNotObject
deriving DecidableEq

namespace OptionError

def message : OptionError → Text
  | noEquals spec => ("Invalid variable format '" : Text) ++ spec ++ ("'. Expected 'NAME=VALUE'" : Text)
  | emptyName spec => ("Invalid variable format '" : Text) ++ spec ++ ("'. Empty name" : Text)
  | jsonNotFound path => ("JSON file not found: " : Text) ++ path
  | jsonMalformed message => ("Invalid JSON values: " : Text) ++ message
  | jsonNotObject => "JSON values must be an object"

end OptionError

end UriTemplate
