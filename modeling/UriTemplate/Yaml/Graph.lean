import UriTemplate.Table
import UriTemplate.Yaml.Plain
import UriTemplate.Yaml.Token

/-!
# YAML graphs

The nodes of a document: scalars, sequences and mappings.  Aliases make that a node may be a member of several others,
also of itself.

* `Yaml.Node`, `Yaml.Graph` — the nodes of a document, each under its place;
* `Yaml.Grammar` — a reader of tokens, which leaves the rest of them and the nodes so far;
* `Graph.ofTokens` — the graph of the only document of a token sequence, if there is a document.
-/

namespace UriTemplate.Yaml

/-- The place of a node in its graph. -/
abbrev Place := Nat

inductive Content
  | scalar (text : Text)
  | sequence (items : List Place)
  | mapping (entries : List (Place × Place))

structure Node where
  type : NodeType
  content : Content

instance : Inhabited Node := ⟨⟨.unknown, .scalar []⟩⟩

structure Graph where
  version : Version
  nodes : Array Node
  root : Place

/-- What is left of the tokens, and what is known from those before: the version and the handles of tags, the nodes,
and the places of those that have a name. -/
structure Reading where
  rest : List (Token × Version)
  ending : Option Failure
  version : Version := {}
  handles : Table Text Text := defaultHandles
  nodes : Array Node := #[]
  anchors : Table Text Place := []

abbrev Grammar (α : Type) := StateT Reading (Except Failure) α

namespace Grammar

/-- The next token, or none at the end of the text.  Its version counts from now on. -/
def peek : Grammar (Option Token) := do
  let s ← get
  match s.rest, s.ending with
  | (t, version) :: _, _ =>
    set { s with version }
    return some t
  | [], none => return none
  | [], some e => throw e

def malformed {α : Type} : Grammar α := throw .malformed

/-- Whether the next token is one of `ts`. -/
def next (ts : List Token) : Grammar Bool := return (← peek).any (ts.contains ·)

def skip : Grammar Unit := modify fun s => { s with rest := s.rest.tail }

/-- Takes the next token, which must be `t`. -/
def expect (t : Token) : Grammar Unit := do
  if ← next [t] then skip else malformed

/-- Takes the next token if it is `t`. -/
def accept (t : Token) : Grammar Bool := do
  if ← next [t] then
    skip
    return true
  else return false

/-! ## nodes -/

/-- What stands in front of a node: a name, and a tag. -/
structure Properties where
  anchor : Option Text := none
  tag : Option Text := none

def Properties.isEmpty (p : Properties) : Bool := p.anchor.isNone && p.tag.isNone

/-- The name and the tag in front of a node, in either order. -/
def properties : (fuel : Nat) → Option Text → Option TagName → Grammar Properties
  | 0, anchor, tag => do
    let handles := (← get).handles
    match tag with
    | none => return { anchor }
    | some t => return { anchor, tag := ← require (t.full? handles) }
  | fuel + 1, anchor, tag => do
    match ← peek, anchor, tag with
    | some (.anchor name), none, tag => do skip; properties fuel (some name) tag
    | some (.tag t), anchor, none => do skip; properties fuel anchor (some t)
    | _, anchor, tag => properties 0 anchor tag

/-- A tag that leaves the type open. -/
def openTag : Text := "!"

/-- Adds a node under its name. -/
def add (properties : Properties) (node : Node) : Grammar Place := do
  let s ← get
  let place := s.nodes.size
  let anchors := match properties.anchor with
    | some name => s.anchors.put name place
    | none => s.anchors
  set { s with nodes := s.nodes.push node, anchors }
  return place

/-- Adds a scalar.  Without a tag a plain one has the type that its text tells. -/
def addScalar (properties : Properties) (text : Text) (plain : Bool) : Grammar Place := do
  let version := (← get).version
  let type ← match properties.tag with
    | none => if plain then plainType version text else pure .text
    | some tag => if tag = openTag then plainType version text else pure (.ofTag tag)
  add properties ⟨type, .scalar text⟩

/-- A scalar in place of a node that is left out. -/
def empty : Grammar Place := addScalar {} [] true

/-- Adds a collection, before its members are known: they may be aliases of it. -/
def addCollection (properties : Properties) (type : NodeType) (members : Grammar Content) : Grammar Place := do
  let type := match properties.tag with
    | none => type
    | some tag => if tag = openTag then type else .ofTag tag
  let place ← add properties ⟨type, .sequence []⟩
  let content ← members
  modify fun s => { s with nodes := s.nodes.set! place ⟨type, content⟩ }
  return place

/-- The node that has the name. -/
def aliasOf (name : Text) : Grammar Place := do require ((← get).anchors.get? name)

/-- Whether an entry of a mapping begins with the next token: a key, or from version 1.2 on a value without one. -/
def startsEntry : Grammar Bool := do next (if (← get).version.isAfter .v11 then [.key, .value] else [.key])

/-- No node, where a name or a tag may stand alone. -/
def nothing (p : Properties) : Grammar Place := if p.isEmpty then malformed else addScalar p [] true

mutual

/-- A node.  Block collections are read if `block`, and the items of a sequence that has no opening token of its own
if `indentless`. -/
def node (block indentless : Bool) : (fuel : Nat) → Grammar Place
  | 0 => malformed
  | fuel + 1 => do
    match ← peek with
    | some (.aliasOf name) => do skip; aliasOf name
    | _ =>
      let p ← properties 2 none none
      let sequence (items : Grammar (List Place)) : Grammar Place :=
        addCollection p .sequence (return .sequence (← items))
      let mapping (entries : Grammar (List (Place × Place))) : Grammar Place :=
        addCollection p .mapping (return .mapping (← entries))
      match ← peek, block with
      | some .blockEntry, _ => if indentless then sequence (indentlessItems fuel) else nothing p
      | some (.scalar text plain), _ => do skip; addScalar p text plain
      | some .flowSequenceStart, _ => do skip; sequence (flowItems true fuel)
      | some .flowMappingStart, _ => do skip; mapping (flowEntries true fuel)
      | some .blockSequenceStart, true => do skip; sequence (blockItems fuel)
      | some .blockMappingStart, true => do skip; mapping (blockEntries fuel)
      | _, _ => nothing p

/-- A node, or nothing in front of one of `ends`. -/
def nodeOrEmpty (block indentless : Bool) (ends : List Token) : (fuel : Nat) → Grammar Place
  | 0 => malformed
  | fuel + 1 => do if ← next ends then empty else node block indentless fuel

def blockItems : (fuel : Nat) → Grammar (List Place)
  | 0 => malformed
  | fuel + 1 => do
    if ← accept .blockEntry then
      let item ← nodeOrEmpty true false [.blockEntry, .blockEnd] fuel
      return item :: (← blockItems fuel)
    else
      expect .blockEnd
      return []

def indentlessItems : (fuel : Nat) → Grammar (List Place)
  | 0 => malformed
  | fuel + 1 => do
    if ← accept .blockEntry then
      let item ← nodeOrEmpty true false [.blockEntry, .key, .value, .blockEnd] fuel
      return item :: (← indentlessItems fuel)
    else return []

/-- The entries of a block mapping.  From version 1.2 on a value may do without a key. -/
def blockEntries : (fuel : Nat) → Grammar (List (Place × Place))
  | 0 => malformed
  | fuel + 1 => do
    if ← startsEntry then
      let key ← (do if ← accept .key then nodeOrEmpty true true [.key, .value, .blockEnd] fuel else empty)
      let value ← (do if ← accept .value then nodeOrEmpty true true [.key, .value, .blockEnd] fuel else empty)
      return (key, value) :: (← blockEntries fuel)
    else
      expect .blockEnd
      return []

/-- The items of a flow sequence; all but the first stand behind a comma. -/
def flowItems (first : Bool) : (fuel : Nat) → Grammar (List Place)
  | 0 => malformed
  | fuel + 1 => do
    if ← accept .flowSequenceEnd then return []
    if !first then expect .flowEntry
    if ← accept .key then
      let item ← addCollection {} .mapping (do
        let key ← nodeOrEmpty false false [.value, .flowEntry, .flowSequenceEnd] fuel
        let value ← (do
          if ← accept .value then nodeOrEmpty false false [.flowEntry, .flowSequenceEnd] fuel else empty)
        return .mapping [(key, value)])
      return item :: (← flowItems false fuel)
    else if ← accept .flowSequenceEnd then return []
    else
      let item ← node false false fuel
      return item :: (← flowItems false fuel)

/-- The entries of a flow mapping; a node without a colon is a key without a value. -/
def flowEntries (first : Bool) : (fuel : Nat) → Grammar (List (Place × Place))
  | 0 => malformed
  | fuel + 1 => do
    if ← accept .flowMappingEnd then return []
    if !first then expect .flowEntry
    if ← startsEntry then
      let key ← (do
        if ← accept .key then nodeOrEmpty false false [.value, .flowEntry, .flowMappingEnd] fuel else empty)
      let value ← (do
        if ← accept .value then nodeOrEmpty false false [.flowEntry, .flowMappingEnd] fuel else empty)
      return (key, value) :: (← flowEntries false fuel)
    else if ← accept .flowMappingEnd then return []
    else
      let key ← node false false fuel
      let value ← empty
      return (key, value) :: (← flowEntries false fuel)

end

/-! ## documents -/

/-- Takes the directives in front of a document.  There is at most one version among them, and one declaration of each
handle; what is not declared keeps its meaning. -/
def directives : (fuel : Nat) → (version : Option Version) → (declared : Table Text Text) → Grammar Unit
  | 0, _, _ => malformed
  | fuel + 1, version, declared => do
    match ← peek, version with
    | some (.directive (.version v)), none =>
      skip
      if v.major ≠ 1 then malformed
      directives fuel (some v) declared
    | some (.directive (.version _)), some _ => malformed
    | some (.directive (.handle handle uri)), version =>
      skip
      if (declared.get? handle).isSome then malformed
      directives fuel version (declared.put handle uri)
    | some (.directive .unknown), version => do skip; directives fuel version declared
    | _, _ => modify fun s => { s with handles := declared ++ defaultHandles }

def isDirective : Option Token → Bool
  | some (.directive _) => true
  | _ => false

/-- The content of a document behind `---`. -/
def content (fuel : Nat) : Grammar Place := do
  let t ← peek
  if t.isNone || isDirective t || t = some .documentStart || t = some .documentEnd then empty
  else node true false fuel

def documentEnds : (fuel : Nat) → Grammar Unit
  | 0 => return
  | fuel + 1 => do if ← accept .documentEnd then documentEnds fuel

/-- Takes the mark at the end of the only document, if there is one.  Version 1.1 allows for several. -/
def finish (fuel : Nat) : Grammar Unit := do
  documentEnds (if (← get).version = .v11 then fuel else 1)
  if (← peek).isSome then malformed

/-- The only document, if there is one. -/
def document (fuel : Nat) : Grammar (Option Graph) := do
  let t ← peek
  if t.isNone then return none
  let root ← (do
    if isDirective t || t = some .documentStart then
      directives fuel none []
      expect .documentStart
      content fuel
    else node true false fuel)
  finish fuel
  let s ← get
  return some { version := s.version, nodes := s.nodes, root }

end Grammar

/-- The graph of the only document.  The fuel is enough for every nesting that the tokens allow. -/
def Graph.ofTokens (ts : TokenStream) : Except Failure (Option Graph) :=
  (Grammar.document (4 * ts.tokens.length + 8)).run' { rest := ts.tokens, ending := ts.ending }

end UriTemplate.Yaml
