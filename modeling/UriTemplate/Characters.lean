import UriTemplate.Text.Basic

/-!
# Character classes

The classes that URIs and URI templates are made of.

* `CodePoint.isUnreserved`, `CodePoint.isReserved` — the classes of URIs;
* `CodePoint.isLiteral` — what may stand outside the expressions of a template;
* `CodePoint.isNameChar` — what may stand in a variable name, apart from dots and percent triplets.
-/

namespace UriTemplate.CodePoint

/-- Letters, digits and `-`, `.`, `_`, `~`. -/
def isUnreserved (c : CodePoint) : Bool := c.isLetter || c.isDigit || c.isAny ['-', '.', '_', '~']

/-- The delimiters of URIs. -/
def isReserved (c : CodePoint) : Bool :=
  c.isAny [':', '/', '?', '#', '[', ']', '@', '!', '$', '&', '\'', '(', ')', '*', '+', ',', ';', '=']

/-- All but controls, the space and a few punctuation characters.  `%` and `{` are in the class; in a
template they begin a triplet and an expression. -/
def isLiteral (c : CodePoint) : Bool :=
  !(c.val ≤ 0x20 || (0x7F ≤ c.val && c.val ≤ 0x9F) || c.isAny ['\"', '\'', '<', '>', '\\', '^', '`', '|', '}'])

/-- ASCII letters, digits and `_`. -/
def isNameChar (c : CodePoint) : Bool := c.isLetter || c.isDigit || c.isAny ['_']

end UriTemplate.CodePoint
