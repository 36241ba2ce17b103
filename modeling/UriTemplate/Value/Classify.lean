import UriTemplate.Action
import UriTemplate.Value.Display

/-!
# Classification

An expansion tells four kinds of values apart.

* `Classified`, `classify` — a value as nothing, a text, items or pairs; null members are left out, and what has no
  members left is nothing.
-/

namespace UriTemplate

inductive Classified
  | absent
  | scalar (text : Text)
  | sequence (items : List Value)
  | mapping (pairs : List (Value × Value))

namespace SequenceKind

/-- Reads the items of a sequence of this kind; of a stream that is used up there are none. -/
def read (kind : SequenceKind) (items : List Value) : Act (List Value) :=
  match kind with
  | .stream id => do if ← Act.drain id then return items else return []
  | _ => return items

end SequenceKind

namespace Classified

def ofItems (items : List Value) : Classified :=
  match items.filter (!·.isNull) with
  | [] => absent
  | items => sequence items

def ofPairs (pairs : List (Value × Value)) : Classified :=
  match pairs.filter (!·.2.isNull) with
  | [] => absent
  | pairs => mapping pairs

def isAbsent : Classified → Bool
  | absent => true
  | _ => false

end Classified

/-- Classifies a value; streams are read to their end. -/
def classify : Value → Act Classified
  | .null => return .absent
  | .scalar s => return .scalar (← Act.ofExcept s.toText)
  | .sequence kind items => return .ofItems (← kind.read items)
  | .mapping entries => return .ofPairs entries

/-- Whether a value is not made of members. -/
def Value.isScalar : Value → Bool
  | .null | .scalar _ => true
  | _ => false

end UriTemplate
