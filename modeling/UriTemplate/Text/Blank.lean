import UriTemplate.Text.Basic

/-!
# Blank code points

* `CodePoint.isBlank` — white space in the sense of Unicode, and the four separators U+001C to U+001F;
* `Text.strip`, `Text.stripEnd` — a text without blanks at its ends.
-/

namespace UriTemplate

namespace CodePoint

def isBlank (c : CodePoint) : Bool :=
  (0x09 ≤ c.val && c.val ≤ 0x0D) || (0x1C ≤ c.val && c.val ≤ 0x20) || c.val == 0x85 || c.val == 0xA0
    || c.val == 0x1680 || (0x2000 ≤ c.val && c.val ≤ 0x200A) || c.val == 0x2028 || c.val == 0x2029
    || c.val == 0x202F || c.val == 0x205F || c.val == 0x3000

theorem isBlank_ofChar {c : Char} (h : c.isWhitespace) : (ofChar c).isBlank := by
  simp only [Char.isWhitespace, Bool.or_eq_true, decide_eq_true_eq] at h
  rcases h with ((h | h) | h) | h <;> subst h <;> decide

end CodePoint

namespace Text

def strip (t : Text) : Text := t.trim CodePoint.isBlank

def stripEnd (t : Text) : Text := (t.reverse.dropWhile CodePoint.isBlank).reverse

end Text

end UriTemplate
