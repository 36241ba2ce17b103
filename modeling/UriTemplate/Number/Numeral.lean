import UriTemplate.Text.Basic

/-!
# Decimal numerals

* `digitsValue` — the number that a run of decimal digits denotes;
* `signed` — a numeral's sign, and the text behind it;
* `maxDigits` — the greatest number of digits of a numeral that is read or written.
-/

namespace UriTemplate

/-- Numerals of more digits are neither read nor written. -/
def maxDigits : Nat := 4300

/-- The value of a run of digits. -/
def digitsValue (digits : Text) : Nat := digits.foldl (fun n c => n * 10 + (c.val - 0x30)) 0

/-- Whether a minus sign stands in front of a numeral, and the text behind its sign. -/
def signed (t : Text) : Bool × Text :=
  match t with
  | c :: r => if c = '-' then (true, r) else if c = '+' then (false, r) else (false, c :: r)
  | [] => (false, [])

end UriTemplate
