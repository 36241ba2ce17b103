import UriTemplate.Text.Utf8

/-!
# Files

* `Path` — a path without empty and `.` components, `Path.render` its text;
* `FileSystem` — what is found under a path, `FileSystem.ofFiles` the one with given files in its working directory;
* `readText` — the text of a file's bytes, with every line ended by one line feed.

A name has at most 255 bytes and a path at most 4095.  Looking for a longer one is a fault, and not only in vain.
-/

namespace UriTemplate

/-- The components of a path behind its root, which is empty for a relative path. -/
structure Path where
  root : Text := []
  parts : List Text
deriving DecidableEq

namespace Path

/-- The path of a text: two slashes in front are a root of their own, all other ones are like one. -/
def ofText (t : Text) : Path :=
  let slashes := (t.takeWhile (· = ('/' : CodePoint))).length
  let root : Text := if slashes = 0 then [] else if slashes = 2 then "//" else "/"
  { root, parts := (t.split '/').filter fun part => part ≠ [] && part ≠ Text.ofString "." }

def render (p : Path) : Text :=
  if p.root = [] && p.parts = [] then "." else p.root ++ Text.join "/" p.parts

/-- The path of an entry of the directory `p`. -/
def child (p : Path) (name : Text) : Path := { p with parts := p.parts ++ [name] }

end Path

/-! ## names -/

/-- Whether a code point may stand in a path.  Bytes that are no text are written as the surrogates from U+DC80 to
U+DCFF. -/
def isPathChar (c : CodePoint) : Bool := c.val ≠ 0 && (!c.isSurrogate || (0xDC80 ≤ c.val && c.val ≤ 0xDCFF))

/-- The number of bytes of a name or a path. -/
def pathLength (t : Text) : Nat := t.foldr (fun c n => (if c.isSurrogate then 1 else c.utf8.length) + n) 0

def maxNameLength : Nat := 255

def maxPathLength : Nat := 4095

/-! ## file systems -/

/-- What a path leads to. -/
inductive FileEntry
  | file (content : Bytes)
  | directory
  /-- Something else that can be read. -/
  | device (content : Bytes)
  /-- Nothing: the path, or a name in it, is too long. -/
  | tooLong

structure FileSystem where
  workingDirectory : Path
  entry? : Path → Option FileEntry

namespace FileSystem

/-- The file or directory with these components below the working directory. -/
def below? (files : List (List Text × Bytes)) (parts : List Text) : Option FileEntry :=
  match files.lookup parts with
  | some content => some (.file content)
  | none =>
    if parts = [] || files.any (fun f => parts.isPrefixOf f.1) then some .directory else none

/-- Where a path leads: to a place in the working directory, to a directory around it, or nowhere because of a name. -/
inductive Destination
  | inside (parts : List Text)
  | around
  | tooLong

/-- Follows `parts` from a directory on.  Of the directories around the working directory nothing else is known. -/
def walk? (files : List (List Text × Bytes)) : Destination → List Text → Option Destination
  | here, [] => some here
  | .tooLong, _ => some .tooLong
  | .around, part :: parts =>
    if maxNameLength < pathLength part then some .tooLong
    else if part = Text.ofString ".." then walk? files .around parts
    else none
  | .inside here, part :: parts =>
    match below? files here with
    | some .directory =>
      if maxNameLength < pathLength part then some .tooLong
      else if part ≠ Text.ofString ".." then walk? files (.inside (here ++ [part])) parts
      else walk? files (if here = [] then .around else .inside here.dropLast) parts
    | _ => none

/-- What is found in a file system with the given files in its working directory and some devices. -/
def find? (workingDirectory : Path) (files : List (List Text × Bytes)) (devices : List (Path × Bytes)) (path : Path) :
    Option FileEntry :=
  let destination? : Option Destination :=
    if path.root = [] then walk? files (.inside []) path.parts
    else if path.root = workingDirectory.root && workingDirectory.parts.isPrefixOf path.parts then
      walk? files (.inside []) (path.parts.drop workingDirectory.parts.length)
    else walk? files .around path.parts
  match devices.lookup path, destination? with
  | some content, _ => some (.device content)
  | none, some (.inside parts) => below? files parts
  | none, some .around => some .directory
  | none, some .tooLong => some .tooLong
  | none, none => none

/-- The given files in the working directory, the null device and the standard input, and nothing else but directories
around the working directory. -/
def ofFiles (workingDirectory : Path) (files : List (Text × Bytes)) (input : Bytes) : FileSystem where
  workingDirectory := workingDirectory
  entry? path :=
    let files := files.map fun f => ((Path.ofText f.1).parts, f.2)
    let devices := [(Path.ofText "/dev/null", []), (Path.ofText "/dev/stdin", input)]
    if !path.render.all isPathChar then none
    else if maxPathLength < pathLength path.render then some .tooLong
    else find? workingDirectory files devices path

end FileSystem

/-- Ends every line with one line feed. -/
def unifyLines : Text → Text
  | [] => []
  | c :: t =>
    if c = '\r' then
      match t with
      | d :: t' => if d = '\n' then '\n' :: unifyLines t' else '\n' :: unifyLines (d :: t')
      | [] => ['\n']
    else c :: unifyLines t

/-- The text of a file. -/
def readText (content : Bytes) : Except Utf8.Fault Text := unifyLines <$> Utf8.decode content

end UriTemplate
