import UriTemplate.Yaml.Failure
import UriTemplate.Yaml.Position
import UriTemplate.Yaml.Version

/-!
# Texts of YAML scalars

A scalar is written plain, in quotes, or as a block of lines.  Each reader below gives the text that is meant and the
position behind the scalar.

* `plainText` — a plain scalar, which may go on over several lines;
* `quotedText` — a scalar in single or double quotes;
* `blockText` — a literal or folded block.
-/

namespace UriTemplate.Yaml

/-- Line breaks between two lines of a scalar: a single line feed is a space, of more breaks a line feed in front does
not count. -/
def folded (breaks : Text) : Text :=
  match breaks with
  | [] => []
  | [c] => if c = '\n' then [' '] else [c]
  | c :: more => if c = '\n' then more else c :: more

/-- A text from its parts, the last one first. -/
def assemble (parts : List Text) : Text := parts.reverse.flatten

/-! ## plain scalars -/

/-- Whether a plain scalar ends at the character `c` before `after`. -/
def endsPlain (v : Version) (inFlow : Bool) (c : CodePoint) (after : Option CodePoint) : Bool :=
  if c = ':' then isGap after
  else if c = '?' then inFlow && v = .v11
  else isGap (some c) || (inFlow && c.isAny [',', '[', ']', '{', '}'])

/-- The characters up to the end of a plain scalar or of its line's first part. -/
def plainRun (v : Version) (inFlow : Bool) : Text → Text
  | [] => []
  | c :: rest => if endsPlain v inFlow c rest.head? then [] else c :: plainRun v inFlow rest

/-- Behind a line break: the breaks up to the next part of a plain scalar, and where it begins.  There are none before a
document marker. -/
def plainBreaks : (fuel : Nat) → Position → Text → Text × Position
  | 0, p, _ => ([], p)
  | fuel + 1, p, breaks =>
    if p.atMarker then ([], p)
    else
      let p := p.skipSpaces
      match p.current with
      | some c => if isBreak c then plainBreaks fuel p.next (breaks ++ [breakText c]) else (folded breaks, p)
      | none => (folded breaks, p)

/-- Spaces and line breaks behind a part of a plain scalar: what they mean if the scalar goes on, where they end, and
whether a line ended in them. -/
def plainGap (p : Position) : Text × Position × Bool :=
  let q := p.skipSpaces
  match q.current with
  | some c =>
    if isBreak c then
      let (gap, q) := plainBreaks (q.size + 1) q.next [breakText c]
      (gap, q, true)
    else (p.rest.take (q.index - p.index), q, false)
  | none => (p.rest, q, false)

/-- A plain scalar in a collection that is indented by `indent`; also tells whether a line ended in it or behind it. -/
def plainText (v : Version) (inFlow : Bool) (indent : Int) (p : Position) : Text × Position × Bool :=
  let rec go (fuel : Nat) (p : Position) (parts : List Text) (gap : Text) (broken : Bool) :
      Text × Position × Bool :=
    match fuel with
    | 0 => (assemble parts, p, broken)
    | fuel + 1 =>
      let run := if p.looksAt ['#'] then [] else plainRun v inFlow p.rest
      if run = [] then (assemble parts, p, broken)
      else
        let parts := run :: gap :: parts
        let (gap, q, broken) := plainGap (p.advance run.length)
        if gap = [] || q.looksAt ['#'] || (!inFlow && (q.column : Int) < indent + 1) then (assemble parts, q, broken)
        else go fuel q parts gap broken
  go (p.size + 1) p [] [] false

/-! ## quoted scalars -/

/-- The character that a backslash and a letter stand for. -/
def escapes : List (Char × Nat) := [
  ('0', 0x00), ('a', 0x07), ('b', 0x08), ('t', 0x09), ('\t', 0x09), ('n', 0x0A), ('v', 0x0B), ('f', 0x0C),
  ('r', 0x0D), ('e', 0x1B), (' ', 0x20), ('\"', 0x22), ('/', 0x2F), ('\\', 0x5C), ('N', 0x85), ('_', 0xA0),
  ('L', 0x2028), ('P', 0x2029)]

/-- The number of hexadecimal digits behind a backslash and a letter. -/
def escapeWidth (c : CodePoint) : Option Nat :=
  if c = 'x' then some 2 else if c = 'u' then some 4 else if c = 'U' then some 8 else none

/-- The number that exactly `width` hexadecimal digits at the beginning of a text denote. -/
def hexNumber? (width : Nat) (t : Text) : Option Nat :=
  if t.length < width then none
  else (t.take width).foldlM (fun n c => c.hexValue?.map (n * 16 + ·)) 0

/-- The character of a number. -/
def character (n : Nat) : Except Failure CodePoint :=
  if n < 0x110000 then .ok (.ofNat n) else .error (.noSuchCharacter (n < 2 ^ 31))

/-- Line breaks and blanks behind the first break of a quoted scalar; none may lead to a document marker. -/
def quotedBreaks : (fuel : Nat) → Position → Text → Except Failure (Text × Position)
  | 0, _, _ => .error .malformed
  | fuel + 1, p, breaks =>
    if p.atMarker then .error .malformed
    else
      let p := p.skip isSpace
      match p.current with
      | some c => if isBreak c then quotedBreaks fuel p.next (breaks ++ [breakText c]) else .ok (breaks, p)
      | none => .ok (breaks, p)

/-- Blanks and line breaks in a quoted scalar: what they mean, and where they end. -/
def quotedGap (p : Position) : Except Failure (Text × Position) := do
  let q := p.skip isSpace
  match q.current with
  | none => throw .malformed
  | some c =>
    if isBreak c then
      let (breaks, q) ← quotedBreaks (q.size + 1) q.next [breakText c]
      return (folded breaks, q)
    else return (p.rest.take (q.index - p.index), q)

/-- What stands behind a backslash: the text that is meant, and where it ends.  A line break behind a backslash does not
count. -/
def escapeText (p : Position) : Except Failure (Text × Position) := do
  match p.current with
  | none => throw .malformed
  | some c =>
    match escapes.find? (fun e => c = e.1), escapeWidth c with
    | some (_, n), _ => return ([.ofNat n], p.next)
    | none, some width => return ([← character (← require (hexNumber? width p.next.rest))], p.advance (1 + width))
    | none, none => if isBreak c then quotedBreaks (p.size + 1) p.next [] else throw .malformed

/-- A scalar behind its opening quote. -/
def quotedText (double : Bool) (p : Position) : Except Failure (Text × Position) :=
  let quote : CodePoint := if double then '\"' else '\''
  let rec go (fuel : Nat) (p : Position) (parts : List Text) : Except Failure (Text × Position) := do
    match fuel, p.rest with
    | 0, _ | _, [] => throw .malformed
    | fuel + 1, c :: after =>
      if isSpace c || isBreak c then
        let (gap, p) ← quotedGap p
        go fuel p (gap :: parts)
      else if double && c = '\\' then
        let (part, p) ← escapeText p.next
        go fuel p (part :: parts)
      else if c = quote then
        if !double && after.head? = some c then go fuel (p.advance 2) ([c] :: parts)
        else return (assemble parts, p.next)
      else go fuel p.next ([c] :: parts)
  go (p.size + 1) p []

/-! ## blocks -/

/-- What becomes of the line breaks at the end of a block. -/
inductive Chomping
  | strip
  | clip
  | keep
deriving DecidableEq

/-- The indicators behind `|` or `>`: chomping and indentation, in either order, and the end of the line. -/
def blockHeader (p : Position) : Except Failure (Chomping × Option Nat × Position) := do
  let chomping? (p : Position) : Option (Chomping × Position) :=
    if p.looksAt ['+'] then some (.keep, p.next) else if p.looksAt ['-'] then some (.strip, p.next) else none
  let increment? (p : Position) : Option (Nat × Position) :=
    match p.rest with
    | c :: _ => if c.isDigit then some (c.val - 0x30, p.next) else none
    | [] => none
  let (chomping, increment, p) : Chomping × Option Nat × Position :=
    match chomping? p with
    | some (chomping, p) =>
      match increment? p with
      | some (n, p) => (chomping, some n, p)
      | none => (chomping, none, p)
    | none =>
      match increment? p with
      | some (n, p) =>
        match chomping? p with
        | some (chomping, p) => (chomping, some n, p)
        | none => (.clip, some n, p)
      | none => (.clip, none, p)
  if increment = some 0 || !isWordEnd p.current then throw .malformed
  return (chomping, increment, ← require p.endLine?)

/-- Empty lines, and spaces up to the column `indent` in front of the line behind them. -/
def blockBreaks (indent : Nat) : (fuel : Nat) → Position → Text → Text × Position
  | 0, p, breaks => (breaks, p)
  | fuel + 1, p, breaks =>
    let spaces := p.skipSpaces.index - p.index
    let p := p.advance (min spaces (indent - p.column))
    match p.current with
    | some c => if isBreak c then blockBreaks indent fuel p.next (breaks ++ [breakText c]) else (breaks, p)
    | none => (breaks, p)

/-- What stands in front of the first line of a block: the breaks of empty lines, the column that the first of them ends
in, and the greatest column that spaces lead to. -/
structure BlockLead where
  breaks : Text := []
  first : Option Nat := none
  greatest : Nat := 0
  position : Position

def blockLead : (fuel : Nat) → BlockLead → BlockLead
  | 0, lead => lead
  | fuel + 1, lead =>
    let p := lead.position.skipSpaces
    let greatest := if p.index = lead.position.index then lead.greatest else max lead.greatest p.column
    match p.current with
    | some c =>
      if isBreak c then
        let first := lead.first.getD p.column
        blockLead fuel { breaks := lead.breaks ++ [breakText c], first, greatest, position := p.next }
      else { lead with greatest, position := p }
    | none => { lead with greatest, position := p }

/-- The column of a block's lines, with the breaks of the empty lines in front of the first one.  It is given by the
header, or else by the first line; then an empty line may not be longer than it and the first empty line. -/
def blockColumn (indent : Int) (increment : Option Nat) (p : Position) : Except Failure (Nat × Text × Position) := do
  let fuel := p.size + 1
  match increment with
  | some n =>
    let column := max 1 (indent + 1).toNat + n - 1
    let (breaks, p) := blockBreaks column fuel p []
    return (column, breaks, p)
  | none =>
    let lead := blockLead fuel { position := p }
    if lead.first.any fun first => 0 < first && first < lead.greatest then throw .malformed
    return (max (indent + 1).toNat lead.greatest, lead.breaks, lead.position)

/-- The lines of a block so far: the parts of their text, the last one first, the break behind the last line, and the
breaks of the empty lines behind it. -/
structure BlockLines where
  parts : List Text := []
  ended : Text := []
  breaks : Text
  position : Position

/-- The lines of a block that begin in `column`.  Lines in the first column end before a document marker if the header
gives no indentation. -/
def blockLines (fold untilMarker : Bool) (column : Nat) : (fuel : Nat) → BlockLines → BlockLines
  | 0, lines => lines
  | fuel + 1, lines =>
    let p := lines.position
    let line := p.rest.takeWhile (!isBreak ·)
    let q := p.advance line.length
    let ended : Text := (q.current.map breakText).toList
    let (breaks, q) := blockBreaks column (q.size + 1) q.next []
    let parts := line :: lines.breaks :: lines.parts
    let goesOn := q.column = column && q.rest ≠ [] && !(untilMarker && q.column = 0 && q.atMarker)
    if goesOn then
      let joined := fold && ended = Text.ofString "\n" && !line.head?.any isSpace && !q.current.any isSpace
      let between : Text := if joined then (if breaks = [] then " " else []) else ended
      blockLines fold untilMarker column fuel { parts := between :: parts, breaks, position := q }
    else { parts, ended, breaks, position := q }

/-- A block behind its `|`, or its `>` if `fold`, in a collection that is indented by `indent`. -/
def blockText (fold : Bool) (indent : Int) (p : Position) : Except Failure (Text × Position) := do
  let (chomping, increment, p) ← blockHeader p
  let (column, breaks, p) ← blockColumn indent increment p
  let lead : BlockLines := { breaks, position := p }
  let lines :=
    if p.column = column && p.rest ≠ [] then
      blockLines fold (indent < 0 && increment.isNone) column (p.size + 1) lead
    else lead
  let text := assemble lines.parts
  let text := match chomping with
    | .strip => text
    | .clip => text ++ lines.ended
    | .keep => text ++ lines.ended ++ lines.breaks
  return (text, lines.position)

end UriTemplate.Yaml
