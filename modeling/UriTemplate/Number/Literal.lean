import UriTemplate.Number.Binary64
import UriTemplate.Text.Blank
import UriTemplate.Text.Digit
import UriTemplate.Text.LowerCase

/-!
# Numerals with blanks and signs

Numerals as they are typed: with blanks around them, a sign in front, and digits of any script.

* `NumeralError` — why a text is no numeral;
* `integerOf` — the integer of a numeral in a base;
* `Binary64.ofNumeral` — the number of a decimal numeral.
-/

namespace UriTemplate

inductive NumeralError
  | notInteger (base : Nat) (text : Text)
  | notNumber (text : Text)
  | tooLong (digits : Nat)
deriving DecidableEq

/-- A blank around a numeral.  Separators of records are none. -/
def CodePoint.isNumeralBlank (c : CodePoint) : Bool := c.isBlank && !(0x1C ≤ c.val && c.val ≤ 0x1F)

/-- The text behind a zero and the letter that names the base, if it begins with them. -/
def behindBase (base : Nat) (t : Text) : Text :=
  let letters : List Char := if base = 2 then ['b', 'B'] else if base = 8 then ['o', 'O']
    else if base = 16 then ['x', 'X'] else []
  match t with
  | c :: letter :: rest => if c.decimalValue? = some 0 && letter.isAny letters then rest else t
  | _ => t

/-- The integer of a numeral in a base up to sixteen.  Only in a base that is no power of two the digits are limited in
number, whatever stands behind them. -/
def integerOf (base : Nat) (t : Text) : Except NumeralError Int :=
  let (negative, u) := signed (t.trim CodePoint.isNumeralBlank)
  let u := behindBase base u
  let digits := u.map (CodePoint.digitValue? base)
  let count := (digits.takeWhile Option.isSome).length
  if base = 10 && maxDigits < count then .error (.tooLong count)
  else if u = [] || count < u.length then .error (.notInteger base t)
  else
    let n := digits.foldl (fun n d => n * base + d.getD 0) 0
    .ok (if negative then -(n : Int) else n)

/-- The ASCII digit of the same value, for a digit of any script. -/
def CodePoint.westernDigit (c : CodePoint) : CodePoint :=
  match c.decimalValue? with
  | some d => .ofNat (0x30 + d)
  | none => c

/-- The number of a decimal numeral, or of a word for what is infinite or not a number. -/
def Binary64.ofNumeral (t : Text) : Except NumeralError Binary64 :=
  let (negative, u) := signed (t.trim CodePoint.isNumeralBlank)
  let word := u.lower
  if word = Text.ofString "inf" || word = Text.ofString "infinity" then .ok (.infinite negative)
  else if word = Text.ofString "nan" then .ok .nan
  else match Binary64.ofUnsigned? negative (u.map CodePoint.westernDigit) with
    | some x => .ok x
    | none => .error (.notNumber t)

end UriTemplate
