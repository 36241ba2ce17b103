import UriTemplate.Catalog.Error
import UriTemplate.CommandLine.OptionError
import UriTemplate.Number.Numeral
import UriTemplate.Template.ParseError
import UriTemplate.Text.Output
import UriTemplate.Text.Utf8

/-!
# Faults

* `Raised` — what the code of others may end in;
* `Fault` — all that can keep an operation of the library from giving its result;
* `Fault.message` — the one-line report;
* `Fault.isUserError`, `Fault.isReported` — whom the fault is for.
-/

namespace UriTemplate

/-- The kinds of what the code of others may end in. -/
inductive RaisedKind
  /-- A text or a number is not what it should be. -/
  | value
  | type
  | key
  | index
  | overflow
  | assertion
  | other
deriving DecidableEq

/-- What the code of others ends in, if it gives no result: a source, an object that is asked for its text, a reader of
documents. -/
structure Raised where
  message : Text
  kind : RaisedKind := .other
deriving DecidableEq

inductive Fault
  | malformed (e : ParseError)
  /-- A numeral of so many digits is not read. -/
  | numeralTooLong (digits : Nat)
  /-- An integer of too many digits is not written. -/
  | integerTooLong
  /-- A value of this type does not map names to values. -/
  | unusableSource (type : Text)
  | tooManySources (count : Nat)
  | bareElement
  | raised (r : Raised)
  | unknownVariable (name : Text)
  /-- A value of this type is not a list that can be added to. -/
  | notAppendable (type : Text)
  | catalog (e : CatalogError)
  | option (e : OptionError)
  | undecodable (e : Utf8.Fault)
  | unencodable (e : Utf8.SurrogateRun)
  /-- A name that is looked up would have to be a list or a mapping. -/
  | unusableKey (type : Text)
  /-- A path that leads to a directory instead of a file. -/
  | isDirectory (path : Text)
  /-- A path that is too long, or has a name in it that is. -/
  | pathTooLong (path : Text)
deriving DecidableEq

instance decidableEqExcept {ε α : Type} [DecidableEq ε] [DecidableEq α] : DecidableEq (Except ε α)
  | .ok a, .ok b => decidable_of_iff (a = b) (by simp)
  | .error e, .error f => decidable_of_iff (e = f) (by simp)
  | .ok _, .error _ => isFalse (by simp)
  | .error _, .ok _ => isFalse (by simp)

namespace Fault

/-- The bound on the digits of numerals, as reports put it. -/
def digitLimit : Text :=
  ("Exceeds the limit (" : Text) ++ Text.ofNat 4300 ++ (" digits) for integer string conversion" : Text)

def limitAdvice : Text := "; use sys.set_int_max_str_digits() to increase the limit"

def message : Fault → Text
  | malformed e => e.message
  | numeralTooLong n => digitLimit ++ (": value has " : Text) ++ Text.ofNat n ++ (" digits" : Text) ++ limitAdvice
  | integerTooLong => digitLimit ++ limitAdvice
  | unusableSource type => ("Cannot use " : Text) ++ type ++ (" as a variable resolver" : Text)
  | tooManySources n =>
    ("Expected at most a name/value pair, got " : Text) ++ Text.ofNat n ++ (" positional arguments" : Text)
  | bareElement => "Unknown template element: TemplateElement"
  | raised r => r.message
  | unknownVariable name => ("Variable not recognised - " : Text) ++ name
  | notAppendable type => ("'" : Text) ++ type ++ ("' object has no attribute 'append'" : Text)
  | catalog e => e.message
  | option e => e.message
  | undecodable e => e.message
  | unencodable e => e.message
  | unusableKey type => ("unhashable type: '" : Text) ++ type ++ ("'" : Text)
  | isDirectory path => ("[Errno 21] Is a directory: " : Text) ++ path.quoted
  | pathTooLong path => ("[Errno 36] File name too long: " : Text) ++ path.quoted

/-- Faults in what the user wrote: a template, a catalog or the name of a variable. -/
def isUserError : Fault → Bool
  | malformed _ | unknownVariable _ | catalog _ => true
  | _ => false

/-- Whether the fault is reported in one line: faults in what the user wrote, and texts and numbers that are not what
they should be.  Any other one ends the program. -/
def isReported : Fault → Bool
  | raised r => r.kind = .value
  | unusableSource _ | tooManySources _ | bareElement | notAppendable _ | unusableKey _ | isDirectory _
  | pathTooLong _ => false
  | _ => true

def ofParseFailure : ParseFailure → Fault
  | .malformed e => malformed e
  | .numeralTooLong n => numeralTooLong n

end Fault

end UriTemplate
