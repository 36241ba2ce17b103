import UriTemplate.Text.Utf8

/-!
# Base64

Bytes written with 64 digits, of which four stand for three bytes.

* `Base64.digitValue?` — the alphabet;
* `Base64.decode?` — the bytes of a text, in which other characters do not count.
-/

namespace UriTemplate.Base64

def digitValue? (c : CodePoint) : Option Nat :=
  if c.isUpper then some (c.val - 0x41)
  else if c.isLower then some (c.val - 0x61 + 26)
  else if c.isDigit then some (c.val - 0x30 + 52)
  else if c = '+' then some 62
  else if c = '/' then some 63
  else none

/-- The bytes of what stands behind `digits` digits of a group of four, whose bits that are not yet written are
`left`, and behind `padding` equals signs.  Reading ends where equals signs fill up a group; an unfinished group is a
fault. -/
def decodeFrom (digits left padding : Nat) : Text → Option Bytes
  | [] => if digits = 0 then some [] else none
  | c :: cs =>
    if c = '=' then
      if digits < 2 then decodeFrom digits left padding cs
      else if digits + padding + 1 < 4 then decodeFrom digits left (padding + 1) cs
      else some []
    else
      match digitValue? c, digits with
      | none, _ => decodeFrom digits left padding cs
      | some d, 0 => decodeFrom 1 d 0 cs
      | some d, 1 => (decodeFrom 2 (d % 16) 0 cs).map (.ofNat (left * 4 + d / 16) :: ·)
      | some d, 2 => (decodeFrom 3 (d % 4) 0 cs).map (.ofNat (left * 16 + d / 4) :: ·)
      | some d, _ => (decodeFrom 0 0 0 cs).map (.ofNat (left * 64 + d) :: ·)

def decode? (t : Text) : Option Bytes := decodeFrom 0 0 0 t

end UriTemplate.Base64
