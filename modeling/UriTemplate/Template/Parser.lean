import UriTemplate.Number.Numeral
import UriTemplate.Template.Element
import UriTemplate.Template.ParseError

/-!
# Reading templates

A template is read in one pass, one character at a time; the first fault ends the reading.

* `Place` — what the reader is in the middle of, `Reader` — that and what it has read so far;
* `Reader.step`, `Reader.finish` — the effect of one more character, and of the end of the text;
* `parseElements` — the elements of a text.
-/

namespace UriTemplate

/-- The greatest character limit. -/
def maxLimit : Nat := 9999

/-- Where in a variable reference the reader stands; texts are kept with the latest character first. -/
inductive ReferencePlace
  /-- In the name, of which `read` has been read. -/
  | name (read : Text)
  /-- In a percent triplet of the name, behind its first digit if `digit`. -/
  | triplet (read : Text) (digit : Bool)
  /-- Behind the colon and `digits`. -/
  | limit (name : Text) (digits : Text)
  /-- Behind the asterisk. -/
  | exploded (name : Text)

inductive Place
  | literal
  /-- In a percent triplet of a literal, behind its first digit if `digit`. -/
  | triplet (digit : Bool)
  /-- Behind the opening brace. -/
  | opened
  /-- In a reference; `before` are the references before it, the latest first. -/
  | reference (operator : Operator) (before : List VariableReference) (place : ReferencePlace)

/-- A reader: the number of characters read, the completed elements, the characters of the element that is
being read (both with the latest first), and the place. -/
structure Reader where
  offset : Nat := 0
  elements : List Element := []
  current : Text := []
  place : Place := .literal

/-- The number of a limit's digits, which begin at `start`. -/
def readLimit (digits : Text) (start : Nat) : Except ParseFailure Nat :=
  if digits = [] then .error (.malformed (.limitMissing start))
  else if digits.length > maxDigits then .error (.numeralTooLong digits.length)
  else if digitsValue digits > maxLimit then .error (.malformed (.limitTooHigh digits start))
  else if digitsValue digits = 0 then .error (.malformed (.limitZero digits start))
  else .ok (digitsValue digits)

namespace Reader

variable (s : Reader)

/-- The part of the source that has been read since the last completed element. -/
def span : Span := ⟨s.current.reverse, s.offset - s.current.length, s.offset⟩

/-- One more character of the current element. -/
def take (c : CodePoint) (place : Place) : Reader :=
  { s with offset := s.offset + 1, current := c :: s.current, place }

/-- The elements with the literal that is being read, if it is not empty. -/
def closed : List Element := if s.current = [] then s.elements else .literal s.span :: s.elements

/-- Completes `reference` at a comma or a closing brace. -/
def complete (op : Operator) (before : List VariableReference) (reference : VariableReference) (c : CodePoint) :
    Reader :=
  if c = ',' then s.take c (.reference op (reference :: before) (.name []))
  else
    let s := s.take c .literal
    { s with elements := .expression s.span op (reference :: before).reverse :: s.elements, current := [] }

/-- Whether a reference may end before this character. -/
def ends (c : CodePoint) : Bool := c.isAny [',', '}']

def nameStep (op : Operator) (before : List VariableReference) (read : Text) (c : CodePoint) :
    Except ParseFailure Reader :=
  if c.isAny [',', '}', ':', '*'] then
    match read with
    | [] => .error (.malformed (.emptyName s.offset))
    | d :: _ =>
      if d = '.' then .error (.malformed (.dot (s.offset - 1)))
      else if c = ':' then .ok (s.take c (.reference op before (.limit read.reverse [])))
      else if c = '*' then .ok (s.take c (.reference op before (.exploded read.reverse)))
      else .ok (s.complete op before { name := read.reverse } c)
  else if c = '.' then
    if read = [] ∨ read.head? = some '.' then .error (.malformed (.dot s.offset))
    else .ok (s.take c (.reference op before (.name (c :: read))))
  else if c = '%' then .ok (s.take c (.reference op before (.triplet (c :: read) false)))
  else if c.isNameChar then .ok (s.take c (.reference op before (.name (c :: read))))
  else .error (.malformed (.nameCharacter s.offset))

def tripletFault (digit : Bool) : ParseFailure :=
  .malformed (.percent (s.offset - (if digit then 2 else 1)))

def referenceStep (op : Operator) (before : List VariableReference) (place : ReferencePlace) (c : CodePoint) :
    Except ParseFailure Reader :=
  match place with
  | .name read => s.nameStep op before read c
  | .triplet read digit =>
    if c.isHexDigit then
      .ok (s.take c (.reference op before (if digit then .name (c :: read) else .triplet (c :: read) true)))
    else .error (s.tripletFault digit)
  | .limit name digits =>
    if c.isDigit then .ok (s.take c (.reference op before (.limit name (c :: digits))))
    else do
      let limit ← readLimit digits.reverse (s.offset - digits.length)
      if ends c then .ok (s.complete op before { name, limit := some limit } c)
      else .error (.malformed (.limitNotLast s.offset))
  | .exploded name =>
    if ends c then .ok (s.complete op before { name, explode := true } c)
    else .error (.malformed (.explodeNotLast s.offset))

/-- Reads one more character. -/
def step (c : CodePoint) : Except ParseFailure Reader :=
  match s.place with
  | .literal =>
    if c = '{' then .ok { offset := s.offset + 1, elements := s.closed, current := [c], place := .opened }
    else if c = '%' then .ok (s.take c (.triplet false))
    else if c.isLiteral then .ok (s.take c .literal)
    else .error (.malformed (.character s.offset))
  | .triplet digit =>
    if c.isHexDigit then .ok (s.take c (if digit then .literal else .triplet true))
    else .error (s.tripletFault digit)
  | .opened =>
    match Operator.ofChar? c with
    | some op => .ok (s.take c (.reference op [] (.name [])))
    | none => s.nameStep .simple [] [] c
  | .reference op before place => s.referenceStep op before place c

/-- The elements, if the text may end here. -/
def finish : Except ParseFailure (List Element) :=
  match s.place with
  | .literal => .ok s.closed.reverse
  | .triplet digit => .error (s.tripletFault digit)
  | .opened => .error (.malformed .unterminated)
  | .reference _ _ place =>
    match place with
    | .triplet _ digit => .error (s.tripletFault digit)
    | .limit _ digits => do
      let _ ← readLimit digits.reverse (s.offset - digits.length)
      .error (.malformed .unterminated)
    | .name _ | .exploded _ => .error (.malformed .unterminated)

/-- Reads a whole text. -/
def run (t : Text) : Except ParseFailure Reader := t.foldlM step s

end Reader

/-- The elements of a template, in order. -/
def parseElements (t : Text) : Except ParseFailure (List Element) := do
  (← ({ : Reader }).run t).finish

end UriTemplate
