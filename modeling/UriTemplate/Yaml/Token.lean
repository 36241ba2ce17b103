import UriTemplate.Yaml.Directive
import UriTemplate.Yaml.ScalarText

/-!
# YAML tokens

The tokens of a YAML text, in which the indentation of block collections has become opening and closing tokens and
every key of a mapping has a token in front.

* `Yaml.Token` — the tokens;
* `Yaml.Scan` — a scan of a text that has come some way;
* `Yaml.TokenStream`, `Yaml.tokens` — the tokens of a text, up to the place where it is malformed.

That a scalar is a key is known only when the colon behind it is met.  Until then its place among the tokens is kept
as a possible key, and nothing from there on is known for certain.  So the version that counts for a token may be given
by a directive behind it.
-/

namespace UriTemplate.Yaml

inductive Token
  | directive (d : Directive)
  | documentStart
  | documentEnd
  | blockSequenceStart
  | blockMappingStart
  | blockEnd
  | flowSequenceStart
  | flowSequenceEnd
  | flowMappingStart
  | flowMappingEnd
  | blockEntry
  | flowEntry
  | key
  | value
  | aliasOf (name : Text)
  | anchor (name : Text)
  | tag (t : TagName)
  /-- A scalar; `plain` if it was written without quotes. -/
  | scalar (text : Text) (plain : Bool)
deriving DecidableEq

/-- Tokens, each with the version that counts by the time it is known for certain, and why there are no more of them if
the text goes on. -/
structure TokenStream where
  tokens : List (Token × Version)
  ending : Option Failure

/-- A place in front of which a key may have to be put. -/
structure PossibleKey where
  /-- How many tokens there are before the place. -/
  tokens : Nat
  position : Position
  /-- Whether nothing but a key may stand here. -/
  required : Bool

structure Scan where
  position : Position
  version : Version := {}
  /-- The tokens so far. -/
  emitted : Array Token := #[]
  /-- The versions of those that are known for certain. -/
  settled : Array Version := #[]
  /-- The flow collections that are open, the innermost first; a mapping is `true`. -/
  flow : List Bool := []
  /-- The columns of the open block collections, the innermost first. -/
  indents : List Nat := []
  /-- The possible key of the block level and of every flow level, by the number of open flow collections. -/
  keys : List (Nat × PossibleKey) := []
  keyAllowed : Bool := true

namespace Scan

variable (s : Scan)

def inFlow : Bool := s.flow ≠ []

/-- The column of the innermost block collection; less than any column if there is none. -/
def indent : Int := match s.indents with
  | [] => -1
  | column :: _ => column

def column : Nat := s.position.column

/-- The number of tokens so far. -/
def count : Nat := s.emitted.size

def emit (t : Token) : Scan := { s with emitted := s.emitted.push t }

/-- Puts a token behind the first `place` ones. -/
def emitBehind (place : Nat) (t : Token) : Scan := { s with emitted := s.emitted.insertIdxIfInBounds place t }

/-- Emits a token and goes `n` characters on. -/
def emitAt (t : Token) (n : Nat) : Scan := { s.emit t with position := s.position.advance n }

def allowKey (b : Bool) : Scan := { s with keyAllowed := b }

/-- Closes the block collections that are indented deeper than `column`. -/
def unwind (column : Int) : Scan :=
  if s.inFlow then s
  else
    let closed := s.indents.takeWhile fun (c : Nat) => column < c
    { s with indents := s.indents.drop closed.length, emitted := s.emitted ++ closed.map fun _ => Token.blockEnd }

/-- Opens a block collection at `column` unless one is open there; its token is put behind the first `place` ones. -/
def openBlock (column : Nat) (t : Token) (place : Nat) : Scan :=
  if s.indent < column then { s.emitBehind place t with indents := column :: s.indents } else s

/-! ## possible keys -/

def possibleKey? : Option PossibleKey := s.keys.lookup s.flow.length

/-- Forgets the possible key of the level, unless a key is required there. -/
def dropKey : Except Failure Scan :=
  match s.possibleKey? with
  | some key =>
    if key.required then .error .malformed else .ok { s with keys := s.keys.filter (·.1 ≠ s.flow.length) }
  | none => .ok s

/-- Notes that a key may begin here. -/
def saveKey : Except Failure Scan := do
  if !s.keyAllowed then return s
  let key : PossibleKey :=
    { tokens := s.count, position := s.position, required := !s.inFlow && s.indent = s.column }
  let s ← s.dropKey
  return { s with keys := (s.flow.length, key) :: s.keys }

/-- Forgets the possible keys that begin in another line or too far away. -/
def dropStale : Except Failure Scan :=
  let stale (key : PossibleKey) : Bool :=
    key.position.line ≠ s.position.line || s.position.index - key.position.index > 1024
  if s.keys.any fun e => stale e.2 && e.2.required then .error .malformed
  else .ok { s with keys := s.keys.filter fun e => !stale e.2 }

/-- Settles the tokens that are known for certain by now: those before every possible key. -/
def settle : Scan :=
  let known := s.keys.foldl (fun n e => min n e.2.tokens) s.count
  { s with settled := s.settled ++ Array.replicate (known - s.settled.size) s.version }

/-- The settled tokens, with why there are no more of them. -/
def stream (ending : Option Failure) : TokenStream := ⟨(s.emitted.zip s.settled).toList, ending⟩

/-! ## tokens -/

/-- Blanks, comments and line breaks.  A tab is a blank in flow collections only. -/
def skipBlanks : (fuel : Nat) → Scan → Scan
  | 0, s => s
  | fuel + 1, s =>
    let p := (s.position.skip fun c => c = ' ' || (s.inFlow && c = '\t')).skipComment
    if p.current.any isBreak then
      skipBlanks fuel { s with position := p.next, keyAllowed := s.keyAllowed || !s.inFlow }
    else { s with position := p }

/-- Before a line that begins a document, ends one, or gives a directive. -/
def closeAll : Except Failure Scan := do return (← (s.unwind (-1)).dropKey).allowKey false

def marker (t : Token) : Except Failure Scan := do return (← s.closeAll).emitAt t 3

/-- A directive.  A version counts from its line on. -/
def directive : Except Failure Scan := do
  let s ← s.closeAll
  let (d, p) ← readDirective s.version s.position
  let version := match d with
    | .version v => v
    | _ => s.version
  return { s.emit (.directive d) with position := p, version }

def openFlow (mapping : Bool) : Except Failure Scan := do
  let s ← s.saveKey
  let s := s.emitAt (if mapping then .flowMappingStart else .flowSequenceStart) 1
  return { s with flow := mapping :: s.flow, keyAllowed := true }

def closeFlow (t : Token) : Except Failure Scan := do
  let s ← s.dropKey
  return { s.emitAt t 1 with flow := s.flow.tail, keyAllowed := false }

def flowEntry : Except Failure Scan := do
  let s ← s.dropKey
  return (s.emitAt .flowEntry 1).allowKey true

def blockEntry : Except Failure Scan := do
  if !s.inFlow && !s.keyAllowed then throw .malformed
  let s := if s.inFlow then s else s.openBlock s.column .blockSequenceStart s.count
  let s ← s.dropKey
  return (s.emitAt .blockEntry 1).allowKey true

def explicitKey : Except Failure Scan := do
  if !s.inFlow && !s.keyAllowed then throw .malformed
  let s := if s.inFlow then s else s.openBlock s.column .blockMappingStart s.count
  let s ← s.dropKey
  return (s.emitAt .key 1).allowKey (!s.inFlow)

/-- The colon.  It makes a key of the possible key of the level; in a block it may otherwise stand only where a key
could stand. -/
def colon : Except Failure Scan := do
  match s.possibleKey? with
  | some key =>
    let s := { s.emitBehind key.tokens .key with keys := s.keys.filter (·.1 ≠ s.flow.length) }
    let s := if s.inFlow then s else s.openBlock key.position.column .blockMappingStart key.tokens
    return (s.emitAt .value 1).allowKey false
  | none =>
    if !s.inFlow && !s.keyAllowed then throw .malformed
    let s := if s.inFlow then s else s.openBlock s.column .blockMappingStart s.count
    let s ← (s.allowKey (!s.inFlow)).dropKey
    return s.emitAt .value 1

/-- The characters of anchors and aliases: no blanks, no controls, and no brackets and commas. -/
def isAnchorChar (c : CodePoint) : Bool :=
  ((0x21 ≤ c.val && c.val ≤ 0x7E) || (0xA0 ≤ c.val && c.val ≤ 0xD7FF)
    || (0xE000 ≤ c.val && c.val ≤ 0xFFFD && c.val ≠ 0xFEFF) || 0x10000 ≤ c.val)
    && !c.isAny [',', '[', ']', '{', '}']

def anchor (make : Text → Token) : Except Failure Scan := do
  let s ← s.saveKey
  let p := s.position.next
  let name := p.rest.takeWhile isAnchorChar
  let p := p.advance name.length
  if name = [] || !(isGap p.current || p.looksAt [',', '[', ']', '{', '}']) then throw .malformed
  return { s.emit (make name) with position := p, keyAllowed := false }

def tag : Except Failure Scan := do
  let s ← s.saveKey
  let (t, p) ← readTag s.version s.position
  return { s.emit (.tag t) with position := p, keyAllowed := false }

def block (fold : Bool) : Except Failure Scan := do
  let s ← (s.allowKey true).dropKey
  let (text, p) ← blockText fold s.indent s.position.next
  return { s.emit (.scalar text false) with position := p }

def quoted (double : Bool) : Except Failure Scan := do
  let s ← s.saveKey
  let (text, p) ← quotedText double s.position.next
  return { s.emit (.scalar text false) with position := p, keyAllowed := false }

def plain : Except Failure Scan := do
  let s ← s.saveKey
  let (text, p, broken) := plainText s.version s.inFlow s.indent s.position
  return { s.emit (.scalar text true) with position := p, keyAllowed := broken }

/-- Whether the colon at the position separates a key from its value.  In a flow mapping it does without a gap too, but
not right behind another colon; `pending` tells whether that one is still not certain. -/
def isColon (pending : Bool) : Bool :=
  let gap := isGap (s.position.peek 1)
  match s.flow with
  | [] => gap
  | mapping :: _ => gap || s.version = .v11 || (mapping && !(pending && s.emitted.back? = some .value))

/-- Whether a plain scalar begins with `c` at the position. -/
def isPlainStart (c : CodePoint) : Bool :=
  let gap := isGap (s.position.peek 1)
  if c = '-' then !gap
  else if c = ':' then
    if s.inFlow then s.version ≠ .v11 && !(s.position.peek 1).any isSpace else !gap
  else if c = '?' then !gap && !s.inFlow
  else !isGap (some c) && !c.isAny [',', '[', ']', '{', '}', '#', '&', '*', '!', '|', '>', '\'', '\"', '%', '@', '`']

/-- The token that begins with `c` at the position. -/
def token (c : CodePoint) (pending : Bool) : Except Failure Scan :=
  let gap := isGap (s.position.peek 1)
  let atMarker := s.column = 0 && s.position.atMarker
  if c = '%' && s.column = 0 then s.directive
  else if c = '-' && atMarker then s.marker .documentStart
  else if c = '.' && atMarker then s.marker .documentEnd
  else if c = '[' then s.openFlow false
  else if c = '{' then s.openFlow true
  else if c = ']' then s.closeFlow .flowSequenceEnd
  else if c = '}' then s.closeFlow .flowMappingEnd
  else if c = ',' then s.flowEntry
  else if c = '-' && gap then s.blockEntry
  else if c = '?' && (s.inFlow || gap) then s.explicitKey
  else if c = ':' && s.isColon pending then s.colon
  else if c = '*' then s.anchor .aliasOf
  else if c = '&' then s.anchor .anchor
  else if c = '!' then s.tag
  else if c = '|' && !s.inFlow then s.block false
  else if c = '>' && !s.inFlow then s.block true
  else if c = '\'' then s.quoted false
  else if c = '\"' then s.quoted true
  else if s.isPlainStart c then s.plain
  else .error .malformed

/-- The scan with the next token; at the end of the text, with the tokens that close what is open. -/
def next (pending : Bool) : Except Failure (Scan × Bool) := do
  let s ← (s.skipBlanks (s.position.size + 1)).dropStale
  let s := s.unwind s.column
  match s.position.current with
  | none => return ({ ← s.closeAll with keys := [] }, true)
  | some c => return (← s.token c pending, false)

/-- All tokens from the position on. -/
def all : (fuel : Nat) → Scan → TokenStream
  | 0, s => s.stream (some .malformed)
  | fuel + 1, s =>
    match s.dropStale with
    | .error e => s.stream (some e)
    | .ok s =>
      let s := s.settle
      match s.next !s.keys.isEmpty with
      | .error e => s.stream (some e)
      | .ok (s, true) => s.settle.stream none
      | .ok (s, false) => all fuel s

end Scan

/-- The characters that a YAML text may hold. -/
def isAllowed (c : CodePoint) : Bool :=
  c.isAny ['\t', '\n'] || (0x20 ≤ c.val && c.val ≤ 0x7E) || c.val == 0x85 || (0xA0 ≤ c.val && c.val ≤ 0xD7FF)
    || (0xE000 ≤ c.val && c.val ≤ 0xFFFD) || 0x10000 ≤ c.val

/-- The tokens of a text.  A byte order mark at its beginning is no part of it. -/
def tokens (t : Text) : TokenStream :=
  if !t.all isAllowed then ⟨[], some .malformed⟩
  else
    let t := match t with
      | c :: rest => if c.val = 0xFEFF then rest else t
      | [] => t
    Scan.all (t.length + 1) { position := { rest := t } }

end UriTemplate.Yaml
