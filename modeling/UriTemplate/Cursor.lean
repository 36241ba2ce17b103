import UriTemplate.Text.Basic

/-!
# Cursors

A text with a position in it, for reading character by character.

* `Cursor` — the text and the position, which `Cursor.seek` may set anywhere, also beyond the end;
* `Cursor.current`, `Cursor.peek`, `Cursor.previous` — the characters around the position, if there are any;
* `Cursor.advance`, `Cursor.accept`, `Cursor.acceptHexPair`, `Cursor.takeWhile` — what moves it.

A position or an index below zero counts from the end of the text, where there is a character to count to.
-/

namespace UriTemplate

structure Cursor where
  text : Text
  position : Int := 0

namespace Cursor

/-- The part of a text between two indices.  Indices are cut to the text's bounds. -/
def part (t : Text) (start stop : Int) : Text :=
  let bound (i : Int) : Nat := (if i < 0 then i + t.length else i).toNat
  (t.take (bound stop)).drop (bound start)

variable (c : Cursor)

def slice (start stop : Int) : Text := part c.text start stop

def isAtEnd : Bool := c.text.length ≤ c.position

/-- The character at an index, if the index does not reach beyond the text on either side. -/
def at? (i : Int) : Option CodePoint :=
  if i < 0 then (if i + c.text.length < 0 then none else c.text[(i + c.text.length).toNat]?)
  else c.text[i.toNat]?

def current : Option CodePoint := c.at? c.position

/-- The character `offset` places on. -/
def peek (offset : Int) : Option CodePoint := c.at? (c.position + offset)

/-- The character before the position; none at the beginning. -/
def previous : Option CodePoint := if c.position = 0 then none else c.at? (c.position - 1)

def seek (position : Int) : Cursor := { c with position }

/-- Moves on by `count`, but not beyond the end, and gives the part in between. -/
def advance (count : Int) : Text × Cursor :=
  let stop := min (c.position + count) c.text.length
  (c.slice c.position stop, c.seek stop)

/-- Moves behind the current character if it is one of `allowed`. -/
def accept (allowed : Text) : Bool × Cursor :=
  if c.current.any (allowed.contains ·) then (true, c.seek (c.position + 1)) else (false, c)

/-- Moves behind two hexadecimal digits. -/
def acceptHexPair : Bool × Cursor :=
  if c.current.any (·.isHexDigit) && (c.peek 1).any (·.isHexDigit) then (true, c.seek (c.position + 2))
  else (false, c)

/-- The characters from the position on; from a position that counts from the end, the whole text comes behind
them. -/
def ahead : Text :=
  if c.position < 0 then c.text.drop (c.position + c.text.length).toNat ++ c.text
  else c.text.drop c.position.toNat

/-- Moves behind the longest run of characters ahead that satisfy `p` and gives the part in between. -/
def takeWhile (p : CodePoint → Bool) : Text × Cursor :=
  let stop := c.position + (c.ahead.takeWhile p).length
  (c.slice c.position stop, c.seek stop)

end Cursor

end UriTemplate
