import UriTemplate.Value.Display
import UriTemplate.Yaml.Graph
import UriTemplate.Yaml.Scalar

/-!
# YAML documents

The value of a document.  Its collections are filled level by level: a collection is there before its members, so that
an alias may refer to a collection that it is a member of.

* `Yaml.Item` — what a node has become, with `Item.same` for keys;
* `Yaml.Build` — a computation on the nodes of a graph, their items and the members of collections;
* `Build.flatten`, `Build.item`, `Build.fill`, `Build.levels` — merged entries, single nodes, members, all levels;
* `Yaml.read`, `Yaml.reader` — the value of a text, null for an empty one.

A key is complete before it is put into its mapping; a sequence as a key counts with the members it has by then.
-/

namespace UriTemplate.Yaml

/-- What a node has become: a single value, the collection at its place, or a tuple of what other nodes have become.
All numbers that are not a number have one place. -/
inductive Item
  | single (place : Place) (v : Value)
  | collection (place : Place)
  | tuple (items : List Item)

/-- The members of a collection. -/
inductive Members
  | items (items : List Item)
  | entries (entries : List (Item × Item))

mutual
/-- Whether two items are the same key. -/
def Item.same : Item → Item → Bool
  | .single p v, .single q w => p == q || v.sameKey w
  | .tuple xs, .tuple ys => sameItems xs ys
  | _, _ => false
def sameItems : List Item → List Item → Bool
  | [], [] => true
  | x :: xs, y :: ys => x.same y && sameItems xs ys
  | _, _ => false
end

instance : BEq Item := ⟨Item.same⟩

/-- What is known of a place: its node, the entries that were merged into it, what it has become, and the members of
that. -/
structure Slot where
  node : Node
  merged : List (Place × Place) := []
  item : Option Item := none
  members : Members := .items []

instance : Inhabited Slot := ⟨{ node := default }⟩

structure Building where
  slots : Array Slot
  version : Version
  /-- How many nodes and entries there are. -/
  size : Nat
  /-- The keys whose members are being put in. -/
  unfinished : List Place := []
  /-- The collections of the next level, the latest one first. -/
  waiting : List Place := []

abbrev Build (α : Type) := StateT Building (Except Failure) α

namespace Building

variable (s : Building)

def slot (place : Place) : Slot := s.slots[place]!

def type (place : Place) : NodeType := (s.slot place).node.type

/-- The items of a sequence, or the keys of a mapping. -/
def itemsAt (place : Place) : List Item :=
  match (s.slot place).members with
  | .items items => items
  | .entries entries => entries.map (·.1)

/-- The value of an item, with the members that collections have by now.  A collection within itself is cut off. -/
def valueOf : (fuel : Nat) → (around : List Place) → Item → Value
  | 0, _, _ => .null
  | _, _, .single _ v => v
  | fuel + 1, around, .tuple items => .sequence .tuple (items.map (valueOf fuel around))
  | fuel + 1, around, .collection place =>
    if place ∈ around then .null
    else
      let value := valueOf fuel (place :: around)
      match s.type place, (s.slot place).members with
      | .set, _ => .sequence .set ((s.itemsAt place).map value)
      | _, .items items => .list (items.map value)
      | _, .entries entries => .mapping (entries.map fun e => (value e.1, value e.2))

def value (item : Item) : Value := s.valueOf (3 * s.size + 3) [] item

/-- The word for the type of a collection. -/
def typeName (place : Place) : Text :=
  match s.type place with
  | .mapping => "dict"
  | .orderedMapping => "ordereddict"
  | .set => "set"
  | _ => "list"

mutual
/-- The type that keeps an item from being a key, if one does. -/
def changeable? : Item → Option Text
  | .single _ v => v.changeable?.map Text.ofString
  | .collection place => some (s.typeName place)
  | .tuple items => changeableMember? items
def changeableMember? : List Item → Option Text
  | [] => none
  | i :: is => (changeable? i).or (changeableMember? is)
end

end Building

namespace Build

def malformed {α : Type} : Build α := throw .malformed

def slot (place : Place) : Build Slot := return (← get).slot place

def update (place : Place) (f : Slot → Slot) : Build Unit :=
  modify fun s => { s with slots := s.slots.modify place f }

def typeOf (place : Place) : Build NodeType := return (← slot place).node.type

/-- The entries of a mapping, merged ones in front once they are taken in. -/
def entriesOf (place : Place) : Build (List (Place × Place)) := do
  match (← slot place).node.content with
  | .mapping entries => return entries
  | _ => malformed

def setEntries (place : Place) (entries : List (Place × Place)) : Build Unit :=
  update place fun slot => { slot with node := { slot.node with content := .mapping entries } }

/-! ## merged entries -/

/-- The keys that stand for a mapping are texts within it. -/
def nameDefaults : List (Place × Place) → Build Unit
  | [] => return
  | (key, _) :: entries => do
    if (← typeOf key) = .default then
      update key fun slot => { slot with node := { slot.node with type := .text } }
    nameDefaults entries

/-- The first entry whose key merges, and the entries without it. -/
def firstMerge? : List (Place × Place) → Build (Option (Place × List (Place × Place)))
  | [] => return none
  | (key, value) :: entries => do
    if (← typeOf key) = .merge then return some (value, entries)
    else return (← firstMerge? entries).map fun (found, rest) => (found, (key, value) :: rest)

mutual

/-- Puts the entries that a mapping merges in front of its own. -/
def flatten : (fuel : Nat) → Place → Build Unit
  | 0, _ => malformed
  | fuel + 1, place => do
    let merged ← takeMerges fuel place []
    let own ← entriesOf place
    nameDefaults own
    if !merged.isEmpty then
      update place fun slot => { slot with merged }
      setEntries place (merged ++ own)

/-- Takes the merging keys out of a mapping and gives the entries that they merge.  There is one such key, unless those
before it merge nothing. -/
def takeMerges : (fuel : Nat) → Place → List (Place × Place) → Build (List (Place × Place))
  | 0, _, _ => malformed
  | fuel + 1, place, merged => do
    match ← firstMerge? (← entriesOf place) with
    | none => return merged
    | some (source, rest) =>
      if !merged.isEmpty then malformed
      setEntries place rest
      let merged ← match (← slot source).node.content with
        | .mapping _ => do
          flatten fuel source
          entriesOf source
        | .sequence items => do
          let each ← items.mapM fun item => do
            let _ ← entriesOf item
            flatten fuel item
            entriesOf item
          pure each.reverse.flatten
        | .scalar _ => malformed
      takeMerges fuel place merged

end

/-! ## single values -/

/-- The text of a scalar, or of the scalar that stands for a mapping. -/
def textOf : (fuel : Nat) → Place → Build Text
  | 0, _ => malformed
  | fuel + 1, place => do
    match (← slot place).node.content with
    | .scalar text => return text
    | .sequence _ => malformed
    | .mapping entries =>
      match ← entries.findM? fun e => return (← typeOf e.1) = .default with
      | some (_, value) => textOf fuel value
      | none => malformed

/-- The single value at a place. -/
def single (place : Place) : Build Item := do
  let s ← get
  let node := (s.slot place).node
  match node.type, node.content with
  | .timestamp, .sequence _ | .timestamp, .mapping _ => malformed
  | _, _ =>
    let text ← textOf (s.size + 1) place
    let v ← scalarValue s.version node.type text
    return .single (if isNan node.type text then s.slots.size else place) v

/-! ## collections -/

/-- An item as a key: a sequence becomes a tuple, and any other collection is none. -/
def asKey (item : Item) : Build Item := do
  match item with
  | .collection place =>
    match ← typeOf place with
    | .sequence | .pairs => return .tuple ((← get).itemsAt place)
    | _ => malformed
  | item => return item

/-- A key must not be able to change. -/
def checkKey (key : Item) : Build Unit := do
  match (← get).changeable? key with
  | some type => throw (.unusableKey type)
  | none => return

/-- Refuses a key that is there already.  The report shows both values and the key. -/
def repeated (key value before : Item) : Build Unit := do
  let s ← get
  for item in [key, value, before] do
    if (s.value item).keyText.toOption.isNone then throw .notShown
  malformed

/-- The places of the items of a sequence. -/
def itemsOf (place : Place) : Build (List Place) := do
  match (← slot place).node.content with
  | .sequence items => return items
  | _ => malformed

/-- The entry of a mapping that has one. -/
def entryOf (place : Place) : Build (Place × Place) := do
  match ← entriesOf place with
  | [e] => return e
  | _ => malformed

mutual

/-- What a node becomes.  A collection is filled at once if `deep`, and otherwise waits for the next level.  Within a
key a collection is null to its own members. -/
def item (deep : Bool) : (fuel : Nat) → Place → Build Item
  | 0, _ => malformed
  | fuel + 1, place => do
    let s ← get
    match (s.slot place).item with
    | some item => return item
    | none =>
      if place ∈ s.unfinished then return .single place .null
      let item ← (do
        if !(s.type place).isCollection then single place
        else if deep then
          set { s with unfinished := place :: s.unfinished }
          fill true fuel place
          modify fun t => { t with unfinished := s.unfinished }
          return .collection place
        else
          set { s with waiting := place :: s.waiting }
          return .collection place)
      update place fun slot => { slot with item := some item }
      return item

/-- Puts the members into a collection. -/
def fill (deep : Bool) : (fuel : Nat) → Place → Build Unit
  | 0, _ => malformed
  | fuel + 1, place => do
    let members ← match ← typeOf place with
      | .sequence => pure (.items (← (← itemsOf place).mapM (item deep fuel)))
      | .pairs =>
        pure (.items (← (← itemsOf place).mapM fun p => do
          let (key, value) ← entryOf p
          let key ← item deep fuel key
          return .tuple [key, ← item deep fuel value]))
      | .orderedMapping =>
        pure (.entries (← (← itemsOf place).foldlM (fun entries p => do
          let (key, value) ← entryOf p
          let key ← item deep fuel key
          checkKey key
          if (Table.get? entries key).isSome then throw .repeatedKey
          return entries ++ [(key, ← item deep fuel value)]) []))
      | _ => do
        flatten (2 * (← get).size + 4) place
        let merged := (← slot place).merged
        let table ← merged.foldlM (entry deep false fuel) []
        let own ← (← entriesOf place).foldlM (entry deep merged.isEmpty fuel) []
        pure (.entries (Table.update table own))
    update place fun slot => { slot with members }

/-- Adds an entry to a mapping.  If `checked`, its key must be new. -/
def entry (deep checked : Bool) : (fuel : Nat) → Table Item Item → Place × Place → Build (Table Item Item)
  | 0, _, _ => malformed
  | fuel + 1, table, (key, value) => do
    let key ← asKey (← item true fuel key)
    let value ← item deep fuel value
    checkKey key
    if checked then
      if let some before := Table.get? table key then repeated key value before
    return Table.put table key value

end

/-- Fills the waiting collections, then those that have come up while they were filled, and so on. -/
def levels : (fuel : Nat) → Build Unit
  | 0 => malformed
  | fuel + 1 => do
    let s ← get
    if !s.waiting.isEmpty then
      set { s with waiting := [] }
      s.waiting.reverse.forM (fill false (4 * s.size + 8))
      levels fuel

/-- The value of the node at a place. -/
def value (root : Place) : Build Value := do
  let size := (← get).size
  let item ← item false (4 * size + 8) root
  levels (size + 2)
  return (← get).value item

end Build

/-- The number of entries of a mapping. -/
def Content.entryCount : Content → Nat
  | .mapping entries => entries.length
  | _ => 0

/-- The value of a graph. -/
def Graph.value (g : Graph) : Except Failure Value :=
  let size := g.nodes.foldl (fun n node => n + 1 + node.content.entryCount) 0
  (Build.value g.root).run' { slots := g.nodes.map fun node => { node }, version := g.version, size }

/-- The value of the only document in a text. -/
def read (t : Text) : Except Failure Value := do
  match ← Graph.ofTokens (tokens t) with
  | none => return .null
  | some g => g.value

/-- The reader of YAML documents. -/
def reader : DocumentReader := fun t => (read t).mapError Failure.toDocumentFault

end UriTemplate.Yaml
