import UriTemplate.Text.Basic

/-!
# Positions in a YAML text

* `Yaml.Position` — the rest of the text, with the line and the column it begins in;
* `Position.advance`, `Position.skip` — some characters on;
* `isBreak`, `isEnd`, `isGap` — the classes of characters that separate.

Four characters end a line of a scalar or a comment.  Only a line feed begins a new line of the text: lines and columns
are counted from one line feed to the next.
-/

namespace UriTemplate.Yaml

structure Position where
  rest : Text
  index : Nat := 0
  line : Nat := 0
  column : Nat := 0
  /-- The length of the whole text, which bounds every scan. -/
  size : Nat := rest.length

/-- A character that ends a line. -/
def isBreak (c : CodePoint) : Bool := c.val == 0x0A || c.val == 0x85 || c.val == 0x2028 || c.val == 0x2029

/-- What a line break means: a line feed, for all but the two separators. -/
def breakText (c : CodePoint) : CodePoint := if c.val == 0x85 then '\n' else c

/-- A blank within a line. -/
def isSpace (c : CodePoint) : Bool := c.isAny [' ', '\t']

/-- The end of the text or of a line. -/
def isEnd : Option CodePoint → Bool
  | none => true
  | some c => isBreak c

/-- What may stand behind an indicator: the end, a line break, a space or a tab. -/
def isGap : Option CodePoint → Bool
  | none => true
  | some c => isBreak c || isSpace c

/-- What may stand behind a word: the end, a line break or a space. -/
def isWordEnd : Option CodePoint → Bool
  | none => true
  | some c => isBreak c || c = ' '

namespace Position

variable (p : Position)

/-- The character `k` places on. -/
def peek (k : Nat) : Option CodePoint := p.rest[k]?

def current : Option CodePoint := p.rest.head?

/-- Whether the character at the position is one of `cs`. -/
def looksAt (cs : List Char) : Bool := p.current.any (·.isAny cs)

/-- One character on.  A byte order mark takes no column. -/
def next : Position :=
  match p.rest with
  | [] => p
  | c :: rest =>
    if c = '\n' then { p with rest, index := p.index + 1, line := p.line + 1, column := 0 }
    else { p with rest, index := p.index + 1, column := if c.val = 0xFEFF then p.column else p.column + 1 }

def advance (n : Nat) : Position := n.repeat next p

/-- Behind the longest run of characters that satisfy `q`. -/
def skip (q : CodePoint → Bool) : Position := p.advance (p.rest.takeWhile q).length

def skipSpaces : Position := p.skip (· = ' ')

/-- Behind a comment, if one begins here. -/
def skipComment : Position := if p.looksAt ['#'] then p.skip (!isBreak ·) else p

/-- Whether the marks `---` or `...` stand here. -/
def atMarker : Bool :=
  let marker := p.rest.take 3
  (marker == Text.ofString "---" || marker == Text.ofString "...") && isGap (p.peek 3)

/-- Behind the line, in which nothing but spaces and a comment may be left. -/
def endLine? : Option Position :=
  let q := p.skipSpaces.skipComment
  if isEnd q.current then some q.next else none

end Position

end UriTemplate.Yaml
