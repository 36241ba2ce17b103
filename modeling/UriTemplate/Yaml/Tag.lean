import UriTemplate.Text.Utf8
import UriTemplate.Yaml.Failure
import UriTemplate.Yaml.Position
import UriTemplate.Yaml.Version

/-!
# YAML tags

What stands in front of a node to name its type.

* `Yaml.TagName` — a tag as it is written, `TagName.full?` the tag that it stands for;
* `readTag` — the tag at a position;
* `readHandle`, `readUri` — the parts of tags and of the directives that declare their handles.
-/

namespace UriTemplate.Yaml

/-- A tag: a handle, which stands for the beginning of a URI, and the rest; or all of it. -/
structure TagName where
  handle : Option Text
  suffix : Text
deriving DecidableEq

/-- What the handles stand for that need no declaration. -/
def defaultHandles : List (Text × Text) := [("!", "!"), ("!!", "tag:yaml.org,2002:")]

/-- The characters of URIs; the hash sign is one of them from version 1.2 on. -/
def isUriChar (v : Version) (c : CodePoint) : Bool :=
  c.isLetter || c.isDigit || c.isAny ['-', ';', '/', '?', ':', '@', '&', '=', '+', '$', ',', '_', '.', '!', '~', '*',
    '\'', '(', ')', '[', ']', '%'] || (c = '#' && v.isAfter .v11)

/-- Whether all escapes in a URI stand for well-formed UTF-8; `pending` are the bytes of those right before. -/
def escapesAreWellFormed (pending : Bytes) (t : Text) : Bool :=
  let whole : Bool := (Utf8.decode pending).toOption.isSome
  match t with
  | [] => whole
  | c :: rest =>
    if c = '%' then
      match rest with
      | a :: b :: rest =>
        match a.hexValue?, b.hexValue? with
        | some a, some b => escapesAreWellFormed (pending ++ [.ofNat (a * 16 + b)]) rest
        | _, _ => false
      | _ => false
    else whole && escapesAreWellFormed [] rest

/-- The text with every escape replaced by the character of its number. -/
def unescaped : Text → Text
  | [] => []
  | c :: rest =>
    match rest with
    | a :: b :: rest =>
      match a.hexValue?, b.hexValue? with
      | some x, some y => if c = '%' then .ofNat (x * 16 + y) :: unescaped rest else c :: unescaped (a :: b :: rest)
      | _, _ => c :: unescaped (a :: b :: rest)
    | rest => c :: rest

/-- The URI at the position, escapes included. -/
def readUri (v : Version) (p : Position) : Except Failure (Text × Position) :=
  let uri := p.rest.takeWhile (isUriChar v)
  if uri = [] || !escapesAreWellFormed [] uri then .error .malformed else .ok (uri, p.advance uri.length)

/-- The handle at the position: an exclamation mark, perhaps a name and a second one behind it. -/
def readHandle (p : Position) : Except Failure (Text × Position) :=
  if !p.looksAt ['!'] then .error .malformed
  else if p.next.looksAt [' '] then .ok ("!", p.next)
  else
    let name := p.next.rest.takeWhile fun c => c.isLetter || c.isDigit || c.isAny ['-', '_']
    let q := p.next.advance name.length
    if q.looksAt ['!'] then .ok (('!' : CodePoint) :: name ++ [('!' : CodePoint)], q.next) else .error .malformed

/-- The tag at the position, where an exclamation mark stands.  Its handle reaches to the last exclamation mark, and a
URI in angle brackets has none. -/
def readTag (v : Version) (p : Position) : Except Failure (TagName × Position) := do
  let (short, p) : Text × Position := if p.next.looksAt ['!'] then ("!!", p.next) else ("!", p)
  let q := p.next
  let (tag, q) ← (do
    if q.looksAt ['<'] then
      let (uri, q) ← readUri v q.next
      if q.looksAt ['>'] then return ((⟨none, unescaped uri⟩ : TagName), q.next) else throw .malformed
    else if isGap q.current then return (⟨none, short⟩, q)
    else
      let ahead := q.rest.takeWhile fun c => !isWordEnd (some c)
      let (handle, q) ← if ahead.any (· = '!') then readHandle p else pure (short, q)
      let (uri, q) ← readUri v q
      return (⟨some handle, unescaped uri⟩, q))
  if isWordEnd q.current then return (tag, q) else throw .malformed

/-- The full tag, if its handle is declared. -/
def TagName.full? (handles : List (Text × Text)) (t : TagName) : Option Text :=
  match t.handle with
  | none => some t.suffix
  | some handle => (handles.lookup handle).map (· ++ t.suffix)

end UriTemplate.Yaml
