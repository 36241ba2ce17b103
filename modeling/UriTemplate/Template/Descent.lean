import UriTemplate.Cursor
import UriTemplate.Template.Parser

/-!
# Reading templates with a cursor

A template may also be read by descent, with one function for each part of a template and a cursor that all of them
move.  The way of the cursor is recorded: where it goes, what is looked at, and the passes of each loop.

* `Event`, `Moment`, `Walk` — what happens on the way, and where;
* `Descent` — computations that move the cursor; they may fail, and nothing says that they end;
* `Descent.loop` — passes one after another, each of them recorded;
* `Descent.name`, `Descent.reference`, `Descent.expression`, `Descent.elements` — the parts of a template;
* `descend` — what comes out for a text, with the record.
-/

namespace UriTemplate

/-- The loops of a descent: over the elements of a template, the variables of an expression, the characters of a name
and the digits of a limit. -/
inductive Loop
  | elements
  | variables
  | name
  | digits
deriving DecidableEq

inductive Event
  /-- The cursor has been set. -/
  | moves
  /-- The character at an index of the text is read. -/
  | reads (index : Int)
  /-- A pass of a loop begins. -/
  | begins (loop : Loop)
  /-- A pass of a loop that began at `start` ends, and another one is to follow if `again`. -/
  | ends (loop : Loop) (start : Int) (again : Bool)
  /-- A variable has been read. -/
  | passesVariable
  /-- An expression is closed by moving behind `part`. -/
  | closes (part : Text)
  /-- The text turns out to end behind a name that has been read. -/
  | breaksOff
deriving DecidableEq

/-- An event, and the position of the cursor at that moment. -/
structure Moment where
  event : Event
  position : Int
deriving DecidableEq

/-- A cursor, and what happened on its way, the latest first. -/
structure Walk where
  cursor : Cursor
  history : List Moment := []

instance : Inhabited Walk := ⟨{ cursor := { text := [] } }⟩

def Walk.noted (w : Walk) (event : Event) : Walk := { w with history := ⟨event, w.cursor.position⟩ :: w.history }

def Walk.moved (w : Walk) (cursor : Cursor) : Walk := ({ w with cursor } : Walk).noted .moves

/-- A computation with a cursor.  It keeps the walk where it fails; without an end it gives nothing at all. -/
abbrev Descent := ExceptT ParseFailure (StateT Walk Option)

namespace Descent

variable {α : Type}

/-! ## the cursor -/

def cursor : Descent Cursor := return (← get).cursor

def note (event : Event) : Descent Unit := modify (·.noted event)

def fail (e : ParseError) : Descent α := throw (.malformed e)

def failIf (c : Bool) (e : ParseError) : Descent Unit := if c then fail e else pure ()

def position : Descent Int := return (← cursor).position

def atEnd : Descent Bool := return (← cursor).isAtEnd

def slice (start stop : Int) : Descent Text := return (← cursor).slice start stop

/-- The character at an index, which is not read beyond the text. -/
def read (inside : Bool) (index : Int) (c : Option CodePoint) : Descent (Option CodePoint) :=
  if inside then do
    note (.reads index)
    pure c
  else pure c

def peek (offset : Int) : Descent (Option CodePoint) := do
  let c ← cursor
  read (c.position + offset < c.text.length) (c.position + offset) (c.peek offset)

def current : Descent (Option CodePoint) := do
  let c ← cursor
  read (c.position < c.text.length) c.position c.current

def previous : Descent (Option CodePoint) := do
  let c ← cursor
  read (c.position ≠ 0) (c.position - 1) c.previous

def move (f : Cursor → α × Cursor) : Descent α := do
  let (a, c) := f (← cursor)
  modify (·.moved c)
  pure a

def advance : Descent Text := move (·.advance 1)

def accept (allowed : Text) : Descent Bool := do
  let _ ← current
  move (·.accept allowed)

/-- The character behind the current one, which is not read unless the current one is a hexadecimal digit. -/
def secondDigit (first : Option CodePoint) : Descent (Option CodePoint) :=
  if first.any (·.isHexDigit) then peek 1 else pure none

def acceptHexPair : Descent Bool := do
  let _ ← secondDigit (← current)
  move (·.acceptHexPair)

/-! ## loops -/

/-- One pass; another one is to follow if its result is on the left. -/
def pass (l : Loop) (body : Descent (α ⊕ α)) : Descent (α ⊕ α) := do
  let start ← position
  note (.begins l)
  let r ← body
  note (.ends l start r.isLeft)
  pure r

/-- Passes of `body` as long as `test` holds before a pass and the pass before asks for another one. -/
def loop [Nonempty α] (l : Loop) (test : Descent Bool) (body : α → Descent (α ⊕ α)) : α → Descent α :=
  repeatM fun a => do if ← test then pass l (body a) else pure (.inr a)

/-- Moves behind the digits ahead. -/
def digits : Descent Unit :=
  let test : Descent Bool := do
    if ← atEnd then pure false else return (← current).any (·.isDigit)
  loop .digits test (fun _ => move fun c => (.inl (), c.seek (c.position + 1))) ()

def takeDigits : Descent Text := do
  let start ← position
  digits
  slice start (← position)

/-! ## the parts of a template -/

/-- Moves behind a percent sign and two hexadecimal digits. -/
def percentTriplet : Descent Unit := do
  let start ← position
  let _ ← advance
  failIf (!(← acceptHexPair)) (.percent start.toNat)

/-- A dot in a name that begins at `start`. -/
def nameDot (start : Int) : Descent Unit := do
  let here ← position
  if here = start then fail (.dot here.toNat)
  else
    failIf ((← previous) = some ('.' : CodePoint)) (.dot here.toNat)
    let _ ← advance

/-- A character or a triplet of a name that begins at `start`; false if the name ends instead. -/
def nameUnit (start : Int) : Descent Bool := do
  let c ← current
  if c.all (·.isAny [',', '}', ':', '*']) then pure false
  else if c = some ('.' : CodePoint) then
    nameDot start
    pure true
  else if c = some ('%' : CodePoint) then
    percentTriplet
    pure true
  else if c.any (·.isNameChar) then
    let _ ← advance
    pure true
  else fail (.nameCharacter (← position).toNat)

/-- Moves to the end of a name that begins at `start`. -/
def nameUnits (start : Int) : Descent Unit :=
  loop .name (return !(← atEnd)) (fun _ => return if ← nameUnit start then .inl () else .inr ()) ()

def name : Descent Text := do
  let start ← position
  nameUnits start
  failIf (← atEnd) .unterminated
  let stop ← position
  failIf (stop = start) (.emptyName stop.toNat)
  failIf ((← previous) = some ('.' : CodePoint)) (.dot (stop - 1).toNat)
  slice start stop

def limit : Descent Nat := do
  let start ← position
  let digits ← takeDigits
  MonadExcept.ofExcept (readLimit digits start.toNat)

/-- Fails with `e` if a variable does not end here. -/
def expectEnd (e : Nat → ParseError) : Descent Unit := do
  failIf (← atEnd) .unterminated
  let c ← current
  failIf (!c.all Reader.ends) (e (← position).toNat)

/-- What stands behind a name. -/
def modified (name : Text) : Descent VariableReference := do
  if ← accept ":" then
    let n ← limit
    expectEnd .limitNotLast
    pure { name, limit := some n }
  else if ← accept "*" then
    expectEnd .explodeNotLast
    pure { name, explode := true }
  else if ← atEnd then
    note .breaksOff
    fail .unterminated
  else pure { name }

def reference : Descent VariableReference := do
  let v ← modified (← name)
  note .passesVariable
  pure v

/-- A variable behind those in `before`, and the comma or the brace behind it. -/
def nextReference (before : List VariableReference) :
    Descent (List VariableReference ⊕ List VariableReference) := do
  let v ← reference
  if ← accept "," then pure (.inl (before ++ [v]))
  else
    note (.closes (← advance))
    pure (.inr (before ++ [v]))

def references : Descent (List VariableReference) := loop .variables (pure true) nextReference []

/-- The operator, if there is one. -/
def operator : Descent Operator := do
  match (← current).bind Operator.ofChar? with
  | some op =>
    let _ ← advance
    pure op
  | none => pure .simple

def expression : Descent Element := do
  let start ← position
  let _ ← advance
  let op ← operator
  let references ← references
  let stop ← position
  return .expression ⟨← slice start stop, start.toNat, stop.toNat⟩ op references

/-- The literal between `start` and the cursor behind the other elements, if it is not empty. -/
def closeLiteral (start : Int) (elements : List Element) : Descent (List Element) := do
  let stop ← position
  if start < stop then return elements ++ [.literal ⟨← slice start stop, start.toNat, stop.toNat⟩]
  else pure elements

/-- An expression, or a character or a triplet of a literal; the literal that is being read begins where the first part
of the pair says. -/
def element (p : Int × List Element) : Descent (Int × List Element) := do
  let c ← current
  if c = some ('{' : CodePoint) then
    let before ← closeLiteral p.1 p.2
    let e ← expression
    return (← position, before ++ [e])
  else if c = some ('%' : CodePoint) then
    percentTriplet
    pure p
  else if c.any (·.isLiteral) then
    let _ ← advance
    pure p
  else fail (.character (← position).toNat)

/-- Moves to the end of the text, with the elements before the last literal and the place where it begins. -/
def items : Descent (Int × List Element) :=
  loop .elements (return !(← atEnd)) (fun p => return .inl (← element p)) (0, [])

def elements : Descent (List Element) := do
  let p ← items
  closeLiteral p.1 p.2

end Descent

/-- The elements of a text or its first fault, and what happened on the way, in order. -/
def descend (t : Text) : Option (Except ParseFailure (List Element) × List Moment) :=
  (Descent.elements.run.run { cursor := { text := t } }).map fun (r, w) => (r, w.history.reverse)

end UriTemplate
