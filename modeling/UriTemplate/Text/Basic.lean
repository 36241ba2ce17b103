/-!
# Text

A text is a list of code points.  Surrogates may occur in it one by one, so `String` will not do.

* `CodePoint`, `Text` — the types, with coercions from `Char` and `String`;
* `CodePoint.isAny` — membership in a short list of characters;
* `Text.split`, `Text.splitFirst`, `Text.join` — the parts of a text around a separator;
* `Text.sort` — the order by code points.
-/

namespace UriTemplate

-- `^` is the power of the core library, also where a library with powers of its own is imported
attribute [instance (high), default_instance (high + 1)] instPowNat

/-- A Unicode code point.  Unlike a `Char` it may be a surrogate. -/
structure CodePoint where
  val : Nat
  isLt : val < 0x110000
deriving DecidableEq

namespace CodePoint

def ofChar (c : Char) : CodePoint where
  val := c.toNat
  isLt := by
    have h : c.toNat.isValidChar := c.valid
    unfold Nat.isValidChar at h
    omega

instance : Coe Char CodePoint := ⟨ofChar⟩

instance : Inhabited CodePoint := ⟨'?'⟩

@[simp] theorem ofChar_val (c : Char) : (ofChar c).val = c.toNat := rfl

theorem ext_val {c d : CodePoint} (h : c.val = d.val) : c = d := by
  cases c; cases d; simp_all

/-- U+FFFD, which stands for what could not be read. -/
def replacement : CodePoint := ⟨0xFFFD, by decide⟩

/-- The code point of a number; numbers beyond the last code point give `replacement`. -/
def ofNat (n : Nat) : CodePoint := if h : n < 0x110000 then ⟨n, h⟩ else replacement

/-- The character, unless the code point is a surrogate. -/
def toChar? (c : CodePoint) : Option Char :=
  if h : c.val.isValidChar then some (Char.ofNatAux c.val h) else none

/-- Membership in a list of characters. -/
def isAny (c : CodePoint) (cs : List Char) : Bool := cs.any fun d => c.val == d.toNat

def isSurrogate (c : CodePoint) : Bool := 0xD800 ≤ c.val && c.val ≤ 0xDFFF

def isDigit (c : CodePoint) : Bool := 0x30 ≤ c.val && c.val ≤ 0x39

def isUpper (c : CodePoint) : Bool := 0x41 ≤ c.val && c.val ≤ 0x5A

def isLower (c : CodePoint) : Bool := 0x61 ≤ c.val && c.val ≤ 0x7A

def isLetter (c : CodePoint) : Bool := c.isUpper || c.isLower

/-- The value of a hexadecimal digit. -/
def hexValue? (c : CodePoint) : Option Nat :=
  if c.isDigit then some (c.val - 0x30)
  else if 0x41 ≤ c.val && c.val ≤ 0x46 then some (c.val - 0x41 + 10)
  else if 0x61 ≤ c.val && c.val ≤ 0x66 then some (c.val - 0x61 + 10)
  else none

def isHexDigit (c : CodePoint) : Bool := c.hexValue?.isSome

end CodePoint

/-- A text: code points in order, surrogates included. -/
abbrev Text := List CodePoint

namespace Text

def ofChars (cs : List Char) : Text := cs.map CodePoint.ofChar

def ofString (s : String) : Text := ofChars s.toList

instance : Coe String Text := ⟨ofString⟩

/-- The string of a text without surrogates. -/
def toString? (t : Text) : Option String := (t.mapM CodePoint.toChar?).map String.ofList

/-- The decimal numeral of a natural number. -/
def ofNat (n : Nat) : Text := ofChars (Nat.toDigits 10 n)

/-- The decimal numeral of an integer. -/
def ofInt : Int → Text
  | .ofNat n => ofNat n
  | .negSucc n => ('-' : CodePoint) :: ofNat (n + 1)

/-- The parts before and after the first occurrence of `c`. -/
def splitFirst (c : CodePoint) : Text → Option (Text × Text)
  | [] => none
  | d :: t => if d = c then some ([], t) else (splitFirst c t).map fun (a, b) => (d :: a, b)

/-- The parts between the occurrences of `c`; always one more than `c` occurs. -/
def split (c : CodePoint) : Text → List Text
  | [] => [[]]
  | d :: t =>
    if d = c then [] :: split c t
    else match split c t with
      | [] => [[d]]
      | part :: parts => (d :: part) :: parts

/-- The parts in order with `separator` between them. -/
def join (separator : Text) (parts : List Text) : Text := separator.intercalate parts

/-- Comparison by code points, a proper beginning first. -/
def le : Text → Text → Bool
  | [], _ => true
  | _ :: _, [] => false
  | c :: s, d :: t => c.val < d.val || (c.val == d.val && le s t)

/-- Puts a text in front of the first one that it does not come after. -/
def insertInOrder (t : Text) : List Text → List Text
  | [] => [t]
  | u :: us => if le t u then t :: u :: us else u :: insertInOrder t us

/-- The texts in ascending order. -/
def sort (ts : List Text) : List Text := ts.foldr insertInOrder []

/-- Drops the code points at both ends that satisfy `p`. -/
def trim (p : CodePoint → Bool) (t : Text) : Text :=
  ((t.dropWhile p).reverse.dropWhile p).reverse

end Text

end UriTemplate
