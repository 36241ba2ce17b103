import UriTemplate.Text.Basic

/-!
# Parse errors

What can be wrong with the text of a template, and where.

* `ParseError` — the causes, with the offset of the character at fault;
* `ParseError.kind`, `ParseError.text`, `ParseError.offset`, `ParseError.message` — how they are reported.
-/

namespace UriTemplate

/-- The classes of causes that are told apart in reports. -/
inductive ParseErrorKind
  | illegalCharacter
  | illegalPercentEncoding
  | illegalDot
  | emptyVariableName
  | illegalCharacterLimit
  | illegalExplodeModifier
  | unterminatedExpression
deriving DecidableEq

inductive ParseError
  /-- A character that may not stand in a literal. -/
  | character (offset : Nat)
  /-- A character that may not stand in a variable name. -/
  | nameCharacter (offset : Nat)
  /-- A percent sign without two hexadecimal digits behind it. -/
  | percent (offset : Nat)
  /-- A dot at an end of a name or behind another one. -/
  | dot (offset : Nat)
  | emptyName (offset : Nat)
  /-- A colon without digits behind it. -/
  | limitMissing (offset : Nat)
  | limitTooHigh (digits : Text) (offset : Nat)
  | limitZero (digits : Text) (offset : Nat)
  /-- A limit that the variable goes on behind. -/
  | limitNotLast (offset : Nat)
  /-- An asterisk that the variable goes on behind. -/
  | explodeNotLast (offset : Nat)
  /-- The text ends within an expression. -/
  | unterminated
deriving DecidableEq

namespace ParseErrorKind

def name : ParseErrorKind → String
  | illegalCharacter => "IllegalCharacter"
  | illegalPercentEncoding => "IllegalPercentEncoding"
  | illegalDot => "IllegalDot"
  | emptyVariableName => "EmptyVariableName"
  | illegalCharacterLimit => "IllegalCharacterLimit"
  | illegalExplodeModifier => "IllegalExplodeModifier"
  | unterminatedExpression => "UnterminatedExpression"

end ParseErrorKind

namespace ParseError

def kind : ParseError → ParseErrorKind
  | character _ | nameCharacter _ => .illegalCharacter
  | percent _ => .illegalPercentEncoding
  | dot _ => .illegalDot
  | emptyName _ => .emptyVariableName
  | limitMissing _ | limitTooHigh .. | limitZero .. | limitNotLast _ => .illegalCharacterLimit
  | explodeNotLast _ => .illegalExplodeModifier
  | unterminated => .unterminatedExpression

/-- The message without the offset. -/
def text : ParseError → Text
  | character _ => "Illegal character"
  | nameCharacter _ => "Illegal character in variable"
  | percent _ => "Illegal percent encoding"
  | dot _ => "Illegal dot in variable name"
  | emptyName _ => "Variable name is empty"
  | limitMissing _ => "Character limit colon not followed by number"
  | limitTooHigh digits _ => ("Character limit too high (" : Text) ++ digits ++ (")" : Text)
  | limitZero digits _ => ("Illegal character limit (" : Text) ++ digits ++ (")" : Text)
  | limitNotLast _ => "Character limit not followed by ',' or '\x7d'"
  | explodeNotLast _ => "Explode indicator not followed by ',' or '\x7d'"
  | unterminated => "Missing end of expression (\"\x7d\")"

def offset : ParseError → Option Nat
  | character n | nameCharacter n | percent n | dot n | emptyName n | limitMissing n | limitTooHigh _ n
  | limitZero _ n | limitNotLast n | explodeNotLast n => some n
  | unterminated => none

def message (e : ParseError) : Text :=
  match e.offset with
  | none => e.text
  | some n => e.text ++ (" at offset " : Text) ++ Text.ofNat n

end ParseError

/-- Why a template is not read: its text is malformed, or a character limit in it has more digits than a
numeral may have. -/
inductive ParseFailure
  | malformed (e : ParseError)
  | numeralTooLong (digits : Nat)
deriving DecidableEq

end UriTemplate
