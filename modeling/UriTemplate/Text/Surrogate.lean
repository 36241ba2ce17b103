import UriTemplate.Text.Basic

/-!
# Surrogate pairs

A text may hold a high and a low surrogate as two code points where one code point is meant.

* `Text.joinPairs` — every such pair replaced by the code point it stands for;
* `Text.units` — the UTF-16 code units of a text, which `Text.joinPairs` does not change.
-/

namespace UriTemplate

namespace CodePoint

def isHigh (c : CodePoint) : Bool := 0xD800 ≤ c.val && c.val ≤ 0xDBFF

def isLow (c : CodePoint) : Bool := 0xDC00 ≤ c.val && c.val ≤ 0xDFFF

/-- The code point beyond U+FFFF that a surrogate pair stands for. -/
def ofPair (high low : CodePoint) : CodePoint :=
  ofNat (0x10000 + (high.val - 0xD800) * 0x400 + (low.val - 0xDC00))

/-- The UTF-16 code units of a code point; a surrogate is its own unit. -/
def units (c : CodePoint) : List Nat :=
  if c.val < 0x10000 then [c.val]
  else [0xD800 + (c.val - 0x10000) / 0x400, 0xDC00 + (c.val - 0x10000) % 0x400]

end CodePoint

namespace Text

/-- Replaces each high surrogate with a low one right behind it by the code point of the pair.
Lone surrogates stay. -/
def joinPairs : Text → Text
  | c :: d :: t => if c.isHigh && d.isLow then .ofPair c d :: joinPairs t else c :: joinPairs (d :: t)
  | t => t

def units (t : Text) : List Nat := t.flatMap CodePoint.units

end Text

end UriTemplate
