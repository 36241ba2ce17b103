import UriTemplate.Number.Numeral
import UriTemplate.Yaml.Tag

/-!
# YAML directives

Lines that begin with a percent sign, in front of a document.

* `Yaml.Directive` — what they say;
* `readDirective` — the directive at a position.
-/

namespace UriTemplate.Yaml

inductive Directive
  | version (v : Version)
  /-- What a handle stands for. -/
  | handle (handle uri : Text)
  | unknown
deriving DecidableEq

/-- A number of a version. -/
def readVersionNumber (p : Position) : Except Failure (Nat × Position) :=
  let digits := p.rest.takeWhile CodePoint.isDigit
  if digits = [] then .error .malformed
  else if maxDigits < digits.length then .error (.numeral (.tooLong digits.length))
  else .ok (digitsValue digits, p.advance digits.length)

def readVersion (p : Position) : Except Failure (Version × Position) := do
  let (major, p) ← readVersionNumber p.skipSpaces
  if !p.looksAt ['.'] then throw .malformed
  let (minor, p) ← readVersionNumber p.next
  if isWordEnd p.current then return (⟨major, minor⟩, p) else throw .malformed

/-- The handle and the URI of a declaration. -/
def readDeclaration (v : Version) (p : Position) : Except Failure (Text × Text × Position) := do
  let (handle, p) ← readHandle p.skipSpaces
  if !p.looksAt [' '] then throw .malformed
  let (uri, p) ← readUri v p.skipSpaces
  if isWordEnd p.current then return (handle, uri, p) else throw .malformed

/-- The directive at the position, where a percent sign stands, and the position behind its line. -/
def readDirective (v : Version) (p : Position) : Except Failure (Directive × Position) := do
  let p := p.next
  let name := p.rest.takeWhile fun c => c.isLetter || c.isDigit || c.isAny ['-', '_', ':', '.']
  let p := p.advance name.length
  if name = [] || !isWordEnd p.current then throw .malformed
  let (directive, p) ← (do
    if name = Text.ofString "YAML" then
      let (version, p) ← readVersion p
      return (Directive.version version, p)
    else if name = Text.ofString "TAG" then
      let (handle, uri, p) ← readDeclaration v p
      return (Directive.handle handle uri, p)
    else return (Directive.unknown, p.skip (!isBreak ·)))
  return (directive, ← require p.endLine?)

end UriTemplate.Yaml
