import UriTemplate.Text.Printable

/-!
# Texts in quotes

How a text or a byte sequence is shown as part of a larger value: in single quotes, with backslash escapes
for all that is not printed as itself.

* `Text.quoted` — in single quotes, or in double ones where only single ones occur inside;
* `Bytes.quoted` — the same with `b` in front and an escape for every byte that is not printable ASCII,
  `Bytes.quotedAlways` — with single quotes escaped in double ones too;
* `Text.escaped` — without quotes, an escape for every surrogate.
-/

namespace UriTemplate

/-- The lower-case hexadecimal numeral of `n` with at least `width` digits. -/
def Text.hex (width n : Nat) : Text :=
  let digits := Text.ofChars (Nat.toDigits 16 n)
  List.replicate (width - digits.length) ('0' : CodePoint) ++ digits

namespace CodePoint

/-- The shortest of `\xHH`, `\uHHHH` and `\UHHHHHHHH` that can hold the number. -/
def escape (c : CodePoint) : Text :=
  if c.val < 0x100 then ("\\x" : Text) ++ Text.hex 2 c.val
  else if c.val < 0x10000 then ("\\u" : Text) ++ Text.hex 4 c.val
  else ("\\U" : Text) ++ Text.hex 8 c.val

/-- A code point between the given quotes. -/
def quotedBy (quote c : CodePoint) : Text :=
  if c = quote || c = '\\' then ['\\', c]
  else if c = '\n' then "\\n"
  else if c = '\r' then "\\r"
  else if c = '\t' then "\\t"
  else if c.isPrintable then [c]
  else c.escape

end CodePoint

namespace Text

/-- Single quotes, unless the text holds single quotes and no double ones. -/
def quoteFor (t : Text) : CodePoint :=
  if t.any (· = '\'') && !t.any (· = '\"') then '\"' else '\''

def quoted (t : Text) : Text :=
  let quote := quoteFor t
  quote :: t.flatMap (CodePoint.quotedBy quote) ++ [quote]

/-- The text with every surrogate written as an escape. -/
def escaped (t : Text) : Text := t.flatMap fun c => if c.isSurrogate then c.escape else [c]

end Text

namespace Bytes

/-- A byte between quotes, where `quote` and a backslash get a backslash in front. -/
def shown (quote : CodePoint) (b : UInt8) : Text :=
  let c := CodePoint.ofNat b.toNat
  if c.val < 0x7F then CodePoint.quotedBy quote c else c.escape

/-- A byte sequence in quotes. -/
def quoted (bs : List UInt8) : Text :=
  let quote := Text.quoteFor (bs.map fun b => .ofNat b.toNat)
  ('b' : CodePoint) :: quote :: bs.flatMap (shown quote) ++ [quote]

/-- A byte sequence in quotes, with a backslash in front of every single quote, whatever the quotes around are. -/
def quotedAlways (bs : List UInt8) : Text :=
  let quote := Text.quoteFor (bs.map fun b => .ofNat b.toNat)
  ('b' : CodePoint) :: quote :: bs.flatMap (shown '\'') ++ [quote]

end Bytes

end UriTemplate
