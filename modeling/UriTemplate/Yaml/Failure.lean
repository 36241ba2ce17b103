import UriTemplate.Document
import UriTemplate.Number.Literal

/-!
# Failures

* `Yaml.Failure` — why a YAML text has no value;
* `Failure.toDocumentFault` — how that is reported.
-/

namespace UriTemplate.Yaml

inductive Failure
  /-- The text is not well formed, or a node in it has no value. -/
  | malformed
  | numeral (e : NumeralError)
  /-- A number with more than one exponent. -/
  | tooManyExponents
  /-- An integer beyond the greatest number. -/
  | integerTooGreat
  /-- A number without any character. -/
  | numeralEmpty
  /-- A word that is no truth value. -/
  | notTruthValue (word : Text)
  | calendar (e : CalendarError)
  /-- The number of a character that does not exist; `small` if it would fit into 31 bits. -/
  | noSuchCharacter (small : Bool)
  /-- A version of YAML whose plain scalars have no known meaning. -/
  | unknownVersion (major minor : Nat)
  /-- An ordered mapping with two equal keys. -/
  | repeatedKey
  /-- A key that would have to be a list or a mapping. -/
  | unusableKey (type : Text)
  /-- An integer of too many digits in what a report would have to show. -/
  | notShown
deriving DecidableEq

namespace Failure

def numeralMessage : NumeralError → Text
  | .notInteger base text =>
    ("invalid literal for int() with base " : Text) ++ Text.ofNat base ++ (": " : Text) ++ text.quoted.take 200
  | .notNumber text => ("could not convert string to float: " : Text) ++ text.quoted
  | .tooLong n => (Fault.numeralTooLong n).message

def toDocumentFault : Failure → DocumentFault
  | malformed => .rejected "the text is not well formed"
  | numeral e => .raised ⟨numeralMessage e, .value⟩
  | tooManyExponents => .raised ⟨"too many values to unpack (expected 2)", .value⟩
  | integerTooGreat => .raised ⟨"int too large to convert to float", .overflow⟩
  | numeralEmpty => .raised ⟨"string index out of range", .index⟩
  | notTruthValue word => .raised ⟨word.quoted, .key⟩
  | calendar .beyondLastDay => .raised ⟨CalendarError.beyondLastDay.message, .overflow⟩
  | calendar e => .raised ⟨e.message, .value⟩
  | noSuchCharacter true => .raised ⟨"chr() arg not in range(0x110000)", .value⟩
  | noSuchCharacter false => .raised ⟨"Python int too large to convert to C int", .overflow⟩
  | unknownVersion major minor =>
    .raised ⟨("(" : Text) ++ Text.ofNat major ++ (", " : Text) ++ Text.ofNat minor ++ (")" : Text), .key⟩
  | repeatedKey => .raised ⟨[], .assertion⟩
  | unusableKey type => .raised ⟨(Fault.unusableKey type).message, .type⟩
  | notShown => .raised ⟨Fault.integerTooLong.message, .value⟩

end Failure

/-- A result that is not there if the text is malformed. -/
def require {α : Type} : Option α → Except Failure α
  | some a => .ok a
  | none => .error .malformed

end UriTemplate.Yaml
