import UriTemplate.Yaml.Calendar
import UriTemplate.Yaml.Failure
import UriTemplate.Yaml.NodeType
import UriTemplate.Yaml.Version

/-!
# Plain scalars

A plain scalar may be null, a truth value, a number or a timestamp; otherwise it is a text.  Which words and numerals
these are depends on the version.

* `isPlainBool`, `isPlainFloat`, `isPlainInt` — the truth values and numerals of a version;
* `plainType` — the type of a plain scalar.

Underscores may stand between the digits of numerals.
-/

namespace UriTemplate.Yaml

def isUnderscore (c : CodePoint) : Bool := c = '_'

def isDigitOrUnderscore (c : CodePoint) : Bool := c.isDigit || isUnderscore c

def isAmong (words : List String) (t : Text) : Bool := words.any fun w => t = Text.ofString w

def isPlainBool (v : Version) (t : Text) : Bool :=
  isAmong ["true", "True", "TRUE", "false", "False", "FALSE"] t
    || (v = .v11 && isAmong ["y", "Y", "yes", "Yes", "YES", "n", "N", "no", "No", "NO", "on", "On", "ON", "off", "Off",
      "OFF"] t)

/-! ## floating-point numbers -/

/-- `e`, a sign and digits; the sign must be there if `signRequired`. -/
def isExponent (signRequired : Bool) (t : Text) : Bool :=
  match t with
  | e :: rest =>
    let digits := (signed rest).2
    e.isAny ['e', 'E'] && digits ≠ [] && digits.all CodePoint.isDigit
      && (!signRequired || rest.length ≠ digits.length)
  | [] => false

/-- Digits with a point behind some of them, or an exponent, or both. -/
def isDecimal (t : Text) : Bool :=
  match t with
  | [] => false
  | c :: rest =>
    c.isDigit &&
      match rest.dropWhile isDigitOrUnderscore with
      | [] => false
      | d :: after =>
        if d = '.' then
          let after := after.dropWhile isDigitOrUnderscore
          after = [] || isExponent false after
        else isExponent false (d :: after)

/-- Digits with a point in front, and perhaps an exponent with a sign. -/
def isFraction (t : Text) : Bool :=
  match t with
  | [] => false
  | c :: rest =>
    let after := rest.dropWhile isDigitOrUnderscore
    c = '.' && after.length < rest.length && (after = [] || isExponent true after)

/-- Numbers of at most two digits, less than sixty, behind colons; at least one of them. -/
def isSexagesimal (parts : List Text) : Bool :=
  parts ≠ [] && parts.all fun part => match part with
    | [c] => c.isDigit
    | [c, d] => c.isDigit && c.val ≤ 0x35 && d.isDigit
    | _ => false

/-- A numeral of base sixty; the first number satisfies `isFirst`. -/
def isBaseSixty (isFirst : CodePoint → Bool) (t : Text) : Bool :=
  match Text.split ':' t with
  | (c :: rest) :: parts => isFirst c && rest.all isDigitOrUnderscore && isSexagesimal parts
  | _ => false

def isPlainFloat (v : Version) (t : Text) : Bool :=
  let u := (signed t).2
  isDecimal u || isFraction (if v = .v11 then t else u)
    || (v = .v11 && match Text.splitFirst '.' u with
      | some (whole, fraction) => isBaseSixty CodePoint.isDigit whole && fraction.all isDigitOrUnderscore
      | none => false)
    || isAmong [".inf", ".Inf", ".INF"] u || isAmong [".nan", ".NaN", ".NAN"] t

/-! ## integers -/

/-- Digits that satisfy `isDigit`, behind a zero and `letter`. -/
def isPrefixed (letter : Char) (isDigit : CodePoint → Bool) (t : Text) : Bool :=
  match t with
  | c :: d :: digits => c = '0' && d = letter && digits ≠ [] && digits.all fun c => isDigit c || isUnderscore c
  | _ => false

def isOctalDigit (c : CodePoint) : Bool := c.isDigit && c.val ≤ 0x37

def isNonzeroDigit (c : CodePoint) : Bool := c.isDigit && c ≠ '0'

def isPlainInt (v : Version) (t : Text) : Bool :=
  let u := (signed t).2
  isPrefixed 'b' (·.isAny ['0', '1']) u || isPrefixed 'x' CodePoint.isHexDigit u
    || if v = .v11 then
      (u ≠ [] && u.all fun c => isOctalDigit c || isUnderscore c)
        || (u.head?.any isNonzeroDigit && u.all isDigitOrUnderscore)
        || isBaseSixty isNonzeroDigit u
    else isPrefixed 'o' isOctalDigit u || (u ≠ [] && u.all isDigitOrUnderscore)

/-! ## all plain scalars -/

/-- The type of a plain scalar in a known version.  A numeral begins with a digit, a sign or a point, and one line feed
at the end does not count. -/
def knownType (v : Version) (t : Text) : NodeType :=
  let numeric := t.head?.any fun c => c.isDigit || c.isAny ['-', '+', '.']
  let u := withoutFinalBreak t
  if t = [] then .null
  else if isPlainBool v u then .bool
  else if numeric && isPlainFloat v u then .float
  else if numeric && isPlainInt v u then .int
  else if isAmong ["<<"] u then .merge
  else if isAmong ["~", "null", "Null", "NULL"] u then .null
  else if numeric && isPlainTimestamp u then .timestamp
  else if isAmong ["="] u then .default
  else if isAmong ["!", "&", "*"] u then .unknown
  else .text

/-- The type of a plain scalar.  It is known in the versions 1.1 and 1.2 only. -/
def plainType (v : Version) (t : Text) : Except Failure NodeType :=
  if v = .v11 || v = .v12 then .ok (knownType v t) else .error (.unknownVersion v.major v.minor)

end UriTemplate.Yaml
