import UriTemplate.Number.Numeral

/-!
# Binary floating-point numbers

The numbers of the 64-bit binary format, as integers times powers of two.

* `Binary64` — a number of the format;
* `Binary64.ofRatio`, `Binary64.ofDecimal` — the number nearest to a fraction, to a decimal number;
* `Binary64.toInt?` — the integer that a number is equal to;
* `Binary64.ofText?` — the number that a numeral denotes.
-/

namespace UriTemplate

/-- `finite negative m e` is the number `m * 2 ^ e`, or its negative.  It is kept in the one form with
`m < 2 ^ 53` and `e = -1074`, or `2 ^ 52 ≤ m < 2 ^ 53` and `-1074 < e ≤ 971`. -/
inductive Binary64
  | nan
  | infinite (negative : Bool)
  | finite (negative : Bool) (mantissa : Nat) (exponent : Int)
deriving DecidableEq

/-- The nearest integer to `a / b`; halves go to the even neighbour. -/
def roundDiv (a b : Nat) : Nat :=
  let q := a / b
  let r := a % b
  if b < 2 * r || (2 * r == b && q % 2 == 1) then q + 1 else q

namespace Binary64

/-- The fraction `num / den` over two to the power of `e`. -/
def scaled (num den : Nat) (e : Int) : Nat × Nat :=
  if 0 ≤ e then (num, den * 2 ^ e.toNat) else (num * 2 ^ (-e).toNat, den)

/-- The number nearest to `num / den`; infinite from half a step beyond the greatest finite number on. -/
def ofRatio (negative : Bool) (num den : Nat) : Binary64 :=
  if num = 0 then .finite negative 0 (-1074)
  else
    let e : Int := (num.log2 : Int) - den.log2 - 53
    let (a, b) := scaled num den e
    let e := max (-1074) (if b * 2 ^ 53 ≤ a then e + 1 else e)
    let (a, b) := scaled num den e
    let m := roundDiv a b
    let (m, e) := if m = 2 ^ 53 then (2 ^ 52, e + 1) else (m, e)
    if 971 < e then .infinite negative else .finite negative m e

/-- The number nearest to `n * 10 ^ e`. -/
def ofDecimal (negative : Bool) (n : Nat) (e : Int) : Binary64 :=
  if n = 0 then .finite negative 0 (-1074)
  else if 400 < e then .infinite negative
  else if (n.log2 + 1) / 3 + e < -400 then .finite negative 0 (-1074)
  else if 0 ≤ e then ofRatio negative (n * 10 ^ e.toNat) 1
  else ofRatio negative n (10 ^ (-e).toNat)

/-- The integer that the number is equal to. -/
def toInt? : Binary64 → Option Int
  | finite negative m e =>
    let n : Option Nat :=
      if 0 ≤ e then some (m * 2 ^ e.toNat)
      else if m % 2 ^ (-e).toNat = 0 then some (m / 2 ^ (-e).toNat)
      else none
    n.map fun n => if negative then -(n : Int) else n
  | _ => none

/-- Equality of numbers: zeros of both signs are equal, and nothing is equal to what is not a number. -/
def eq : Binary64 → Binary64 → Bool
  | infinite a, infinite b => a == b
  | finite a m e, finite b n f => m == n && e == f && (a == b || m == 0)
  | _, _ => false

/-! ## numerals -/

/-- The exponent behind an `e`: an optional sign and digits. -/
def exponentOf? (t : Text) : Option Int :=
  let (negative, digits) := signed t
  if digits = [] || !digits.all CodePoint.isDigit then none
  else some (if negative then -(digitsValue digits : Int) else digitsValue digits)

/-- An unsigned decimal number: digits, perhaps a point and digits, perhaps an exponent. -/
def ofUnsigned? (negative : Bool) (t : Text) : Option Binary64 := do
  let whole := t.takeWhile CodePoint.isDigit
  let t := t.dropWhile CodePoint.isDigit
  let (fraction, t) : Text × Text := match t with
    | c :: r => if c = '.' then (r.takeWhile CodePoint.isDigit, r.dropWhile CodePoint.isDigit) else ([], c :: r)
    | [] => ([], [])
  if whole = [] ∧ fraction = [] then none
  let exponent ← match t with
    | [] => some 0
    | c :: r => if c.isAny ['e', 'E'] then exponentOf? r else none
  return ofDecimal negative (digitsValue (whole ++ fraction)) (exponent - fraction.length)

/-- The number that a signed numeral denotes; `inf` and `nan` are numerals too. -/
def ofText? (t : Text) : Option Binary64 :=
  let (negative, t) := signed t
  if t = Text.ofString "inf" then some (.infinite negative)
  else if t = Text.ofString "nan" then some .nan
  else ofUnsigned? negative t

end Binary64

end UriTemplate
