import UriTemplate.Number.Arithmetic
import UriTemplate.Number.Literal
import UriTemplate.Text.Base64
import UriTemplate.Value.Basic
import UriTemplate.Yaml.Calendar
import UriTemplate.Yaml.Failure
import UriTemplate.Yaml.NodeType
import UriTemplate.Yaml.Version

/-!
# Values of YAML scalars

* `truthValue`, `integer`, `float`, `binary` — the values of one type each;
* `scalarValue` — the value of a text as a scalar of a given type.

A tag may give any text any type, so that more texts are read here than are written plain.
-/

namespace UriTemplate.Yaml

def truthValue (t : Text) : Except Failure Value :=
  let word := t.lower
  let among (words : List String) : Bool := words.any fun w => word = Text.ofString w
  if among ["yes", "y", "true", "on"] then .ok (.bool true)
  else if among ["no", "n", "false", "off"] then .ok (.bool false)
  else .error (.notTruthValue word)

def liftNumeral {α : Type} : Except NumeralError α → Except Failure α
  | .ok a => .ok a
  | .error e => .error (.numeral e)

def withoutUnderscores (t : Text) : Text := t.filter fun (c : CodePoint) => c ≠ '_'

/-- A numeral without its underscores, its sign apart. -/
def numeral (t : Text) : Except Failure (Bool × Text) :=
  match withoutUnderscores t with
  | [] => .error .numeralEmpty
  | u => .ok (signed u)

/-- The digits of a numeral of base sixty, in the order in which they are written. -/
def baseSixty {α : Type} (digit : Text → Except NumeralError α) (t : Text) : Except Failure (List α) :=
  liftNumeral ((Text.split ':' t).mapM digit)

/-- An unsigned integer.  In version 1.1 a zero in front makes it octal, and colons stand between digits of base
sixty. -/
def unsignedInteger (v : Version) (t : Text) : Except Failure Int :=
  match t with
  | [] => if v = .v11 then .error .numeralEmpty else liftNumeral (integerOf 10 t)
  | c :: rest =>
    let base : Nat := if c ≠ '0' then 10
      else match rest.head? with
        | some d => if d = 'b' then 2 else if d = 'x' then 16 else if d = 'o' then 8 else 10
        | none => 10
    if base ≠ 10 then liftNumeral (integerOf base (t.drop 2))
    else if t = Text.ofString "0" then .ok 0
    else if v = .v11 && c = '0' then liftNumeral (integerOf 8 t)
    else if v = .v11 && t.any (· = ':') then return (← baseSixty (integerOf 10) t).foldl (fun n d => n * 60 + d) 0
    else liftNumeral (integerOf 10 t)

def integer (v : Version) (t : Text) : Except Failure Value := do
  let (negative, u) ← numeral t
  let n ← unsignedInteger v u
  return .int (if negative then -n else n)

/-- The sum of digits of base sixty, added up from the last one on. -/
def sumOfSixties (digits : List Binary64) : Except Failure Binary64 := do
  let (sum, _) ← digits.reverse.foldlM (fun (sum, power) d => do
    let scale := Binary64.ofNat power
    if scale = .infinite false then throw .integerTooGreat
    return (Binary64.add sum (d.mul scale), power * 60)) (Binary64.ofNat 0, 1)
  return sum

/-- An unsigned number, in lower case.  Only version 1.2 knows no colons in it. -/
def unsignedFloat (v : Version) (t : Text) : Except Failure Binary64 :=
  if t = Text.ofString ".inf" then .ok (.infinite false)
  else if t = Text.ofString ".nan" then .ok .nan
  else if v ≠ .v12 && t.any (· = ':') then do sumOfSixties (← baseSixty Binary64.ofNumeral t)
  else if v ≠ .v12 && 1 < (t.filter fun (c : CodePoint) => c = 'e').length then .error .tooManyExponents
  else liftNumeral (Binary64.ofNumeral t)

def float (v : Version) (t : Text) : Except Failure Value := do
  let (negative, u) ← numeral t.lower
  let x ← unsignedFloat v u
  return .scalar (.float (if negative then x.neg else x))

/-- Bytes in base 64. -/
def binary (t : Text) : Except Failure Value := do
  if t.any (0x80 ≤ ·.val) then throw .malformed
  return .scalar (.bytes (← require (Base64.decode? t)))

def timestamp (t : Text) : Except Failure Value := do
  match ← require (timestampOf? t) with
  | .ok t => return .scalar (.timestamp t)
  | .error e => throw (.calendar e)

/-- The value of a text as a scalar of the type. -/
def scalarValue (v : Version) (type : NodeType) (t : Text) : Except Failure Value :=
  match type with
  | .null => .ok .null
  | .bool => truthValue t
  | .int => integer v t
  | .float => float v t
  | .binary => binary t
  | .timestamp => timestamp t
  | .text => .ok (.text t)
  | _ => .error .malformed

/-- Whether the scalar is the one number that is not a number, which all scalars written so have in common. -/
def isNan (type : NodeType) (t : Text) : Bool :=
  type = .float && (signed (withoutUnderscores t.lower)).2 = Text.ofString ".nan"

end UriTemplate.Yaml
