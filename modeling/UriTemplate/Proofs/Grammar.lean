import UriTemplate.Template.Parser

/-!
# The grammar of templates

What a template is made of, apart from how it is read.  Every type below carries its side conditions, so a
derivation is well formed by construction.

* `Triplet`, `NameUnit`, `Name`, `Limit`, `Modifier`, `VariableSpec`, `ExpressionSpec`, `Item` — the productions,
  each with its text;
* `Derivation` — a sequence of literal characters, percent triplets and expressions;
* `Derivation.elements` — the elements a derivation stands for: neighbouring characters and triplets make one literal,
  and spans are running offsets.
-/

namespace UriTemplate

namespace CodePoint

theorem eq_ofChar_iff {c : CodePoint} {d : Char} : c = ofChar d ↔ c.val = d.toNat :=
  ⟨fun h => by rw [h, ofChar_val], fun h => ext_val h⟩

@[simp] theorem isAny_nil (c : CodePoint) : c.isAny [] = false := rfl

@[simp] theorem isAny_cons (c : CodePoint) (d : Char) (cs : List Char) :
    c.isAny (d :: cs) = (decide (c = ofChar d) || c.isAny cs) := by
  rw [isAny, List.any_cons, isAny]
  congr 1
  rw [Bool.eq_iff_iff]
  simp [eq_ofChar_iff]

end CodePoint

/-! ## percent triplets and names -/

/-- `%` and two hexadecimal digits. -/
structure Triplet where
  first : CodePoint
  second : CodePoint
  first_hex : first.isHexDigit
  second_hex : second.isHexDigit
deriving DecidableEq

def Triplet.text (p : Triplet) : Text := ['%', p.first, p.second]

/-- A letter, a digit, `_` or a percent triplet. -/
inductive NameUnit
  | char (c : CodePoint) (isNameChar : c.isNameChar)
  | triplet (p : Triplet)
deriving DecidableEq

def NameUnit.text : NameUnit → Text
  | .char c _ => [c]
  | .triplet p => p.text

/-- A unit behind another one, with or without a dot between them. -/
structure DottedUnit where
  dotted : Bool
  unit : NameUnit
deriving DecidableEq

def DottedUnit.text (u : DottedUnit) : Text :=
  (if u.dotted then [('.' : CodePoint)] else []) ++ u.unit.text

/-- One or more units, with at most one dot between two of them and none at either end. -/
structure Name where
  head : NameUnit
  tail : List DottedUnit
deriving DecidableEq

def Name.text (n : Name) : Text := n.head.text ++ n.tail.flatMap DottedUnit.text

/-! ## variables -/

/-- The digits of a character limit. -/
structure Limit where
  digits : Text
  isDigit : ∀ c ∈ digits, c.isDigit
  length_pos : 0 < digits.length
  length_le : digits.length ≤ 4300
  value_pos : 1 ≤ digitsValue digits
  value_le : digitsValue digits ≤ 9999
deriving DecidableEq

inductive Modifier
  | none
  | explode
  | limit (l : Limit)
deriving DecidableEq

def Modifier.text : Modifier → Text
  | none => []
  | explode => ['*']
  | limit l => (':' : CodePoint) :: l.digits

/-- A name with its modifier. -/
structure VariableSpec where
  name : Name
  modifier : Modifier
deriving DecidableEq

namespace VariableSpec

def text (v : VariableSpec) : Text := v.name.text ++ v.modifier.text

/-- One or more variables with commas between them. -/
def listed (v : VariableSpec) (vs : List VariableSpec) : Text := Text.join "," ((v :: vs).map text)

/-- The reference that is meant: the name as written, the limit as a number. -/
def reference (v : VariableSpec) : VariableReference :=
  match v.modifier with
  | .none => { name := v.name.text }
  | .explode => { name := v.name.text, explode := true }
  | .limit l => { name := v.name.text, limit := some (digitsValue l.digits) }

end VariableSpec

/-! ## expressions and templates -/

namespace Operator

/-- The simple operator and the seven that are written with a character. -/
def all : List Operator :=
  [simple, reserved, fragment, label, pathSegment, pathParameter, query, queryContinuation]

/-- The text of an expression; `body` stands between the operator and the closing brace. -/
def braced (op : Operator) (body : Text) : Text := ('{' : CodePoint) :: op.symbol ++ body ++ [('}' : CodePoint)]

end Operator

/-- One of the eight operators and one or more variables. -/
structure ExpressionSpec where
  operator : Operator
  operator_mem : operator ∈ Operator.all
  first : VariableSpec
  rest : List VariableSpec
deriving DecidableEq

namespace ExpressionSpec

def specs (e : ExpressionSpec) : List VariableSpec := e.first :: e.rest

/-- What stands between the operator and the closing brace. -/
def body (e : ExpressionSpec) : Text := e.first.listed e.rest

def text (e : ExpressionSpec) : Text :=
  ('{' : CodePoint) :: e.operator.symbol ++ e.body ++ [('}' : CodePoint)]

theorem text_eq_braced (e : ExpressionSpec) : e.text = e.operator.braced e.body := rfl

def references (e : ExpressionSpec) : List VariableReference := e.specs.map VariableSpec.reference

end ExpressionSpec

inductive Item
  | char (c : CodePoint) (isLiteral : c.isLiteral) (ne_brace : c ≠ '{') (ne_percent : c ≠ '%')
  | triplet (p : Triplet)
  | expression (e : ExpressionSpec)
deriving DecidableEq

def Item.text : Item → Text
  | .char c _ _ _ => [c]
  | .triplet p => p.text
  | .expression e => e.text

/-- A template as a sequence of items. -/
abbrev Derivation := List Item

namespace Derivation

def text (d : Derivation) : Text := d.flatMap Item.text

/-- Elements with a piece of literal text put in front, which begins at `start`. -/
def glue (start : Nat) (t : Text) (es : List Element) : List Element :=
  if t = [] then es
  else match es with
    | .literal s :: es => .literal ⟨t ++ s.text, start, s.stop⟩ :: es
    | es => .literal ⟨t, start, start + t.length⟩ :: es

/-- The elements of a derivation that begins at `start`. -/
def elementsFrom (start : Nat) : Derivation → List Element
  | [] => []
  | .expression e :: d =>
    .expression ⟨e.text, start, start + e.text.length⟩ e.operator e.references
      :: elementsFrom (start + e.text.length) d
  | .char c _ _ _ :: d => glue start [c] (elementsFrom (start + 1) d)
  | .triplet p :: d => glue start p.text (elementsFrom (start + 3) d)

def elements (d : Derivation) : List Element := elementsFrom 0 d

@[simp] theorem text_nil : text [] = [] := rfl

@[simp] theorem text_cons (i : Item) (d : Derivation) : text (i :: d) = i.text ++ text d := rfl

@[simp] theorem text_append (d d' : Derivation) : text (d ++ d') = text d ++ text d' :=
  List.flatMap_append

@[simp] theorem glue_nil (start : Nat) (es : List Element) : glue start [] es = es := rfl

theorem glue_literal {start : Nat} {t : Text} (ht : t ≠ []) (s : Span) (es : List Element) :
    glue start t (.literal s :: es) = .literal ⟨t ++ s.text, start, s.stop⟩ :: es := by
  simp [glue, ht]

theorem glue_of_not_literal {start : Nat} {t : Text} (ht : t ≠ []) {es : List Element}
    (h : ∀ s r, es ≠ .literal s :: r) : glue start t es = .literal ⟨t, start, start + t.length⟩ :: es := by
  unfold glue
  rw [if_neg ht]
  split
  · next s r => exact absurd rfl (h s r)
  · rfl

/-- Two pieces of literal text are one. -/
theorem glue_glue (start : Nat) (t u : Text) (es : List Element) :
    glue start t (glue (start + t.length) u es) = glue start (t ++ u) es := by
  by_cases ht : t = []
  · subst ht; simp
  by_cases hu : u = []
  · subst hu; simp
  have htu : t ++ u ≠ [] := by simp [ht]
  by_cases h : ∃ s r, es = .literal s :: r
  · obtain ⟨s, r, rfl⟩ := h
    rw [glue_literal hu, glue_literal ht, glue_literal htu, List.append_assoc]
  · have h' : ∀ s r, es ≠ .literal s :: r := fun s r e => h ⟨s, r, e⟩
    rw [glue_of_not_literal hu h', glue_literal ht, glue_of_not_literal htu h', List.length_append, Nat.add_assoc]

end Derivation

end UriTemplate
