import UriTemplate.PercentEncoding
import UriTemplate.Value.Classify

/-!
# Serialization

* `serialize` — a value as one encoded text: the members of sequences and mappings with commas between them, at
  any depth; nothing for what has no members;
* `serializeClassified` — the same for a value that is classified already.

A limit applies to a single value only.
-/

namespace UriTemplate

/-- Texts with commas between them; nothing if there are none. -/
def commaJoined : List Text → Option Text
  | [] => none
  | ts => some (Text.join "," ts)

mutual
def serialize (policy : Policy) (limit : Option Int) : Value → Act (Option Text)
  | .null => return none
  | .scalar s => return some (encode policy (limitTo limit (← Act.ofExcept s.toText)))
  | .sequence kind items => do
    match kind with
    | .stream id => if ← Act.drain id then commaJoined <$> serializeItems policy items else return none
    | _ => commaJoined <$> serializeItems policy items
  | .mapping entries => commaJoined <$> serializePairs policy entries
/-- The texts of the items that have one. -/
def serializeItems (policy : Policy) : List Value → Act (List Text)
  | [] => return []
  | v :: vs => do
    let text ← serialize policy none v
    let texts ← serializeItems policy vs
    return text.toList ++ texts
/-- The texts of keys and values in turn, for the values that have one; the value comes before its key. -/
def serializePairs (policy : Policy) : List (Value × Value) → Act (List Text)
  | [] => return []
  | (key, v) :: pairs => do
    match ← serialize policy none v with
    | none => serializePairs policy pairs
    | some text =>
      let key ← serialize policy none key
      let texts ← serializePairs policy pairs
      return key.getD [] :: text :: texts
end

def serializeClassified (policy : Policy) (limit : Option Int) : Classified → Act (Option Text)
  | .absent => return none
  | .scalar text => return some (encode policy (limitTo limit text))
  | .sequence items => commaJoined <$> serializeItems policy items
  | .mapping pairs => commaJoined <$> serializePairs policy pairs

end UriTemplate
