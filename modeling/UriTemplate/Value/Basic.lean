import UriTemplate.Fault
import UriTemplate.Number.Binary64
import UriTemplate.Table
import UriTemplate.Value.Timestamp

/-!
# Values

What a variable may stand for.

* `Scalar`, `Value` — single values, sequences and mappings;
* `Value.sameKey` — when two values are the same key of a mapping: numbers are compared as numbers;
* `Value.changeable?` — which values are no keys;
* `Value.typeName` — the word for the type of a value in reports.
-/

namespace UriTemplate

/-- A single value.  An `object` is known by its text only, if asking for it does not end in something else. -/
inductive Scalar
  | bool (b : Bool)
  | text (t : Text)
  | int (i : Int)
  | float (x : Binary64)
  | bytes (data : Bytes)
  | byteArray (data : Bytes)
  | timestamp (t : Timestamp)
  | object (text : Except Raised Text)
deriving DecidableEq

/-- What a sequence is besides its items.  A stream can be read once only; the number tells it apart from other
streams. -/
inductive SequenceKind
  | list
  | tuple
  | set
  | range (start stop step : Int)
  | stream (id : Nat)
deriving DecidableEq

inductive Value
  | null
  | scalar (s : Scalar)
  | sequence (kind : SequenceKind) (items : List Value)
  | mapping (entries : List (Value × Value))

namespace Value

instance : Inhabited Value := ⟨null⟩

@[match_pattern] abbrev bool (b : Bool) : Value := scalar (.bool b)
@[match_pattern] abbrev text (t : Text) : Value := scalar (.text t)
@[match_pattern] abbrev int (i : Int) : Value := scalar (.int i)
@[match_pattern] abbrev list (items : List Value) : Value := sequence .list items

def isNull : Value → Bool
  | null => true
  | _ => false

def isText : Value → Bool
  | text _ => true
  | _ => false

/-- The integers from `start` on by `step`, before `stop` is reached. -/
def range (start stop step : Int) : Value :=
  let count : Nat :=
    if 0 < step then ((stop - start + step - 1) / step).toNat
    else if step < 0 then ((start - stop - step - 1) / (-step)).toNat
    else 0
  sequence (.range start stop step) ((List.range count).map fun (k : Nat) => int (start + k * step))

def typeName : Value → String
  | null => "NoneType"
  | scalar (.bool _) => "bool"
  | scalar (.text _) => "str"
  | scalar (.int _) => "int"
  | scalar (.float _) => "float"
  | scalar (.bytes _) => "bytes"
  | scalar (.byteArray _) => "bytearray"
  | scalar (.timestamp (.day _)) => "date"
  | scalar (.timestamp (.moment ..)) => "datetime"
  | scalar (.object _) => "object"
  | sequence .list _ => "list"
  | sequence .tuple _ => "tuple"
  | sequence .set _ => "set"
  | sequence (.range ..) _ => "range"
  | sequence (.stream _) _ => "list_iterator"
  | mapping _ => "dict"

end Value

/-! ## keys -/

/-- The integer that a number or a truth value is equal to. -/
def Scalar.toInt? : Scalar → Option Int
  | .bool b => some (if b then 1 else 0)
  | .int i => some i
  | .float x => x.toInt?
  | _ => none

/-- Whether two single values are the same key.  An object is the same as no other one. -/
def Scalar.sameKey (s t : Scalar) : Bool :=
  match s.toInt?, t.toInt? with
  | some i, some j => i == j
  | some _, none | none, some _ => false
  | none, none =>
    match s, t with
    | .float x, .float y => x.eq y
    | .timestamp t, .timestamp u => t.same u
    | .object _, _ => false
    | s, t => s == t

namespace Value

mutual
/-- Whether two values are the same key of a mapping. -/
def sameKey : Value → Value → Bool
  | null, null => true
  | scalar s, scalar t => s.sameKey t
  | sequence (.stream i) _, sequence (.stream j) _ => i == j
  | sequence .tuple xs, sequence .tuple ys => sameKeys xs ys
  | sequence (.range ..) xs, sequence (.range ..) ys => sameKeys xs ys
  | _, _ => false
def sameKeys : List Value → List Value → Bool
  | [], [] => true
  | x :: xs, y :: ys => sameKey x y && sameKeys xs ys
  | _, _ => false
end

instance : BEq Value := ⟨sameKey⟩

mutual
/-- The type that keeps a value from being a key, if one does: values that can change are no keys, nor are tuples
that hold one. -/
def changeable? : Value → Option String
  | null => none
  | scalar (.byteArray data) => some (scalar (.byteArray data)).typeName
  | scalar _ => none
  | sequence .tuple items => changeableMember? items
  | sequence .list items => some (sequence .list items).typeName
  | sequence .set items => some (sequence .set items).typeName
  | sequence (.range ..) _ | sequence (.stream _) _ => none
  | mapping entries => some (mapping entries).typeName
/-- The type of the first member that can change. -/
def changeableMember? : List Value → Option String
  | [] => none
  | v :: vs => (changeable? v).or (changeableMember? vs)
end

/-- A mapping with the given entries, put in one after another. -/
def ofEntries (entries : List (Value × Value)) : Value := mapping (Table.ofList entries)

end Value

end UriTemplate
