import UriTemplate.Number.Binary64

/-!
# Shortest decimal numerals

* `Binary64.shortest` — of the decimal numbers that are read back as the given number, those with the fewest
  digits, and of these the nearest;
* `Binary64.toText` — that number written out, from `1e16` on and below `0.0001` with an exponent.
-/

namespace UriTemplate

/-- The number of decimal digits of `n`. -/
def digitCount (n : Nat) : Nat := (Nat.toDigits 10 n).length

namespace Binary64

/-- The numbers `4 * m` with the ends of the interval that is rounded to `m`, for `m * 2 ^ e`.  The gap below
a power of two is half as wide as the one above. -/
def interval (m : Nat) (e : Int) : Nat × Nat × Nat :=
  (4 * m - (if m = 2 ^ 52 ∧ -1074 < e then 1 else 2), 4 * m, 4 * m + 2)

/-- The exponent `p` with `10 ^ (p - 1) ≤ num / den < 10 ^ p`. -/
def magnitude (num den : Nat) : Int :=
  if den ≤ num then digitCount (num / den) else 1 - (digitCount ((den - 1) / num) : Int)

/-- The pair `(d, q)` for the number `d * 10 ^ q` on the grid of `10 ^ q` that lies nearest to `m * 2 ^ e` among
those that are rounded to it; the ends of the interval are, if `even`. -/
def onGrid? (m : Nat) (e q : Int) (even : Bool) : Option (Nat × Int) :=
  let (low, mid, high) := interval m e
  -- everything times the common denominator
  let factor := 2 ^ (e - 2).toNat * 10 ^ (-q).toNat
  let unit := 10 ^ q.toNat * 2 ^ (2 - e).toNat
  let inside (x : Nat) : Bool :=
    if even then low * factor ≤ x && x ≤ high * factor else low * factor < x && x < high * factor
  let d := mid * factor / unit
  let below := mid * factor - d * unit
  let above := (d + 1) * unit - mid * factor
  match inside (d * unit), inside ((d + 1) * unit) with
  | false, false => none
  | true, false => some (d, q)
  | false, true => some (d + 1, q)
  | true, true => if below < above || (below == above && d % 2 == 0) then some (d, q) else some (d + 1, q)

/-- The pair `(d, q)` for the shortest number `d * 10 ^ q` that is rounded to `m * 2 ^ e`.  Seventeen digits always
suffice. -/
def shortest (m : Nat) (e : Int) : Nat × Int :=
  let (num, den) := scaled m 1 (-e)
  let p := magnitude num den
  ((List.range 17).findSome? fun (k : Nat) => onGrid? m e (p - (k + 1 : Nat)) (m % 2 == 0)).getD (m, 0)

/-- A sign and at least two digits. -/
def exponentText (e : Int) : Text :=
  let digits := Text.ofNat e.natAbs
  (if e < 0 then '-' else '+') :: (if digits.length < 2 then ('0' : CodePoint) :: digits else digits)

/-- The digits of `n` and the place of the point among them, in front of the digit number `point`; with an exponent
if the leading digit is not within four places behind the point and sixteen before it. -/
def layout (digits : Text) (point : Int) : Text :=
  let zeros (n : Int) : Text := List.replicate n.toNat '0'
  if point - 1 < -4 || 16 ≤ point - 1 then
    let mantissa : Text := match digits with
      | [] => []
      | [d] => [d]
      | d :: ds => d :: ('.' : CodePoint) :: ds
    mantissa ++ ('e' : CodePoint) :: exponentText (point - 1)
  else if point ≤ 0 then ("0." : Text) ++ zeros (-point) ++ digits
  else if point < digits.length then digits.take point.toNat ++ ('.' : CodePoint) :: digits.drop point.toNat
  else digits ++ zeros (point - digits.length) ++ (".0" : Text)

/-- The digits of `n` without the zeros at the end. -/
def significant (n : Nat) : Text := ((Text.ofNat n).reverse.dropWhile (· = ('0' : CodePoint))).reverse

/-- The shortest numeral that denotes the number. -/
def toText : Binary64 → Text
  | nan => "nan"
  | infinite negative => if negative then "-inf" else "inf"
  | finite negative m e =>
    let sign : Text := if negative then "-" else []
    if m = 0 then sign ++ ("0.0" : Text)
    else
      let (d, q) := shortest m e
      sign ++ layout (significant d) (digitCount d + q)

end Binary64

end UriTemplate
