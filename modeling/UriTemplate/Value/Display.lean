import UriTemplate.Number.Shortest
import UriTemplate.Text.Quoted
import UriTemplate.Value.Basic

/-!
# Texts of values

* `Scalar.toText` — the text that a single value is expanded to;
* `Value.display` — how a value is shown with its structure, texts in quotes;
* `Value.keyText` — how a key is shown: texts and timestamps as they are, all else with its structure.
-/

namespace UriTemplate

/-- The decimal numeral of an integer, unless it has too many digits. -/
def intText (i : Int) : Except Fault Text :=
  if i.natAbs < 10 ^ maxDigits then .ok (Text.ofInt i) else .error .integerTooLong

/-- The text of a single value.  What is ill-formed in bytes is replaced. -/
def Scalar.toText : Scalar → Except Fault Text
  | .bool b => .ok (if b then "true" else "false")
  | .text t => .ok t
  | .int i => intText i
  | .float x => .ok x.toText
  | .bytes data | .byteArray data => .ok (Utf8.decodeReplacing data)
  | .timestamp t => .ok t.text
  | .object t => t.mapError .raised

/-- A single value as part of a larger one. -/
def Scalar.display : Scalar → Except Fault Text
  | .bool b => .ok (if b then "True" else "False")
  | .text t => .ok t.quoted
  | .int i => intText i
  | .float x => .ok x.toText
  | .bytes data => .ok (Bytes.quoted data)
  | .byteArray data => .ok (("bytearray(" : Text) ++ Bytes.quotedAlways data ++ (")" : Text))
  | .timestamp t => .ok t.display
  | .object t => t.mapError .raised

namespace Value

/-- The shown items of a sequence in the brackets of its kind. -/
def bracketed (kind : SequenceKind) (items : List Text) : Text :=
  let inside := Text.join ", " items
  match kind with
  | .list => ("[" : Text) ++ inside ++ ("]" : Text)
  | .tuple => ("(" : Text) ++ inside ++ (if items.length = 1 then ",)" else ")" : Text)
  | .set => if items = [] then "set()" else ("\x7b" : Text) ++ inside ++ ("\x7d" : Text)
  | .range start stop step =>
    let ends := ("range(" : Text) ++ Text.ofInt start ++ (", " : Text) ++ Text.ofInt stop
    if step = 1 then ends ++ (")" : Text) else ends ++ (", " : Text) ++ Text.ofInt step ++ (")" : Text)
  | .stream _ => "<iterator>"

mutual
/-- A value with its structure. -/
def display : Value → Except Fault Text
  | null => .ok "None"
  | scalar s => s.display
  | sequence kind items => return bracketed kind (← displayItems items)
  | mapping entries => return ("\x7b" : Text) ++ Text.join ", " (← displayEntries entries) ++ ("\x7d" : Text)
def displayItems : List Value → Except Fault (List Text)
  | [] => .ok []
  | v :: vs => return (← display v) :: (← displayItems vs)
def displayEntries : List (Value × Value) → Except Fault (List Text)
  | [] => .ok []
  | (k, v) :: es => return ((← display k) ++ (": " : Text) ++ (← display v)) :: (← displayEntries es)
end

/-- The text of a key. -/
def keyText : Value → Except Fault Text
  | text t => .ok t
  | scalar (.timestamp t) => .ok t.text
  | v => v.display

end Value

end UriTemplate
