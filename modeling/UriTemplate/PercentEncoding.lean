import UriTemplate.Characters
import UriTemplate.Text.Surrogate
import UriTemplate.Text.Utf8

/-!
# Percent-encoding

* `Policy` — which characters a value may keep as they are;
* `encode` — a text in which every other code point is replaced by the triplets of its UTF-8 bytes;
* `limitTo` — the beginning of a text, of at most a given number of code points.

Both functions join surrogate pairs first, so a pair counts and is encoded as one code point.
-/

namespace UriTemplate

/-- The characters that are allowed in an expanded value: the unreserved ones, or the reserved ones too. -/
inductive Policy
  | unreserved
  | reserved
deriving DecidableEq

namespace Policy

def keeps : Policy → CodePoint → Bool
  | .unreserved, c => c.isUnreserved
  | .reserved, c => c.isUnreserved || c.isReserved

end Policy

/-- The hexadecimal digit of a number below sixteen. -/
def hexDigit (n : Nat) : CodePoint := .ofNat (if n < 10 then 0x30 + n else 0x41 + (n - 10))

/-- `%` and two upper-case hexadecimal digits. -/
def triplet (b : UInt8) : Text := ['%', hexDigit (b.toNat / 16), hexDigit (b.toNat % 16)]

/-- The triplets of the UTF-8 bytes of a code point. -/
def CodePoint.triplets (c : CodePoint) : Text := c.utf8.flatMap triplet

def encode (policy : Policy) (t : Text) : Text :=
  t.joinPairs.flatMap fun c => if policy.keeps c then [c] else c.triplets

/-- At most `limit` code points of a text; all of it without a limit.  A negative limit counts the code
points to leave out at the end. -/
def limitTo (limit : Option Int) (t : Text) : Text :=
  match limit with
  | none => t
  | some (.ofNat n) => t.joinPairs.take n
  | some (.negSucc n) => t.joinPairs.take (t.joinPairs.length - (n + 1))

end UriTemplate
