import UriTemplate.Value.Basic

/-!
# Reading JSON

* `Json.Complaint`, `Json.Mistake` — what is wrong with a text, and where;
* `Json.Failure` — why a text is not read;
* `Json.read` — the value of a JSON text.

Besides the numbers of JSON the words `NaN`, `Infinity` and `-Infinity` are read.  A number with a fraction or an
exponent is a floating-point number, any other one an integer.  Of equal names in an object the last one counts.
-/

namespace UriTemplate.Json

/-! ## mistakes -/

inductive Complaint
  /-- No value begins here. -/
  | value
  /-- No name of an entry begins here. -/
  | name
  | colon
  | comma
  /-- More text behind the value. -/
  | extra
  /-- A string that does not end. -/
  | unterminated
  | controlCharacter
  /-- A backslash before a character that is none to escape. -/
  | escape
  /-- The `u` of an escape, without four digits behind it. -/
  | codeEscape
  | byteOrderMark
deriving DecidableEq

def Complaint.message : Complaint → Text
  | value => "Expecting value"
  | name => "Expecting property name enclosed in double quotes"
  | colon => "Expecting ':' delimiter"
  | comma => "Expecting ',' delimiter"
  | extra => "Extra data"
  | unterminated => "Unterminated string starting at"
  | controlCharacter => "Invalid control character at"
  | escape => "Invalid \\escape"
  | codeEscape => "Invalid \\uXXXX escape"
  | byteOrderMark => "Unexpected UTF-8 BOM (decode using utf-8-sig)"

/-- A complaint about the text behind `before`. -/
structure Mistake where
  complaint : Complaint
  before : Text
deriving DecidableEq

namespace Mistake

variable (m : Mistake)

/-- The line, counted from one. -/
def line : Nat := m.before.count ('\n' : CodePoint) + 1

/-- The column in its line, counted from one. -/
def column : Nat := (m.before.reverse.takeWhile (· ≠ ('\n' : CodePoint))).length + 1

def message : Text :=
  m.complaint.message ++ (": line " : Text) ++ Text.ofNat m.line ++ (" column " : Text) ++ Text.ofNat m.column
    ++ (" (char " : Text) ++ Text.ofNat m.before.length ++ (")" : Text)

end Mistake

inductive Failure
  | malformed (m : Mistake)
  | numeralTooLong (digits : Nat)
deriving DecidableEq

/-- Why a reader stops: for a complaint, with the text that it is about and what follows, or for a numeral. -/
inductive Stop
  | complaint (c : Complaint) (rest : Text)
  | numeralTooLong (digits : Nat)
deriving DecidableEq

/-! ## characters -/

def isBlank (c : CodePoint) : Bool := c.isAny [' ', '\t', '\n', '\r']

def skipBlanks (t : Text) : Text := t.dropWhile isBlank

/-- Behind `word`, if the text begins with it. -/
def behind? (word : String) (t : Text) : Option Text :=
  let word := Text.ofString word
  if word.isPrefixOf t then some (t.drop word.length) else none

/-! ## strings

A reader gives what it has read and the rest of the text. -/

/-- The number of four hexadecimal digits, and the text behind them. -/
def hex4? (t : Text) : Option (Nat × Text) :=
  match t with
  | a :: b :: c :: d :: rest => do
    let n ← [a, b, c, d].foldlM (fun n c => c.hexValue?.map (n * 16 + ·)) 0
    return (n, rest)
  | _ => none

/-- The character behind a backslash, apart from `u`. -/
def escaped? (c : CodePoint) : Option CodePoint :=
  if c.isAny ['\"', '\\', '/'] then some c
  else if c = 'b' then some (.ofNat 0x08)
  else if c = 'f' then some (.ofNat 0x0C)
  else if c = 'n' then some '\n'
  else if c = 'r' then some '\r'
  else if c = 't' then some '\t'
  else none

/-- The code point that is escaped behind the `u` that `letter` begins with.  Something must stand behind its digits.  A
high surrogate escape followed by a low one stands for one code point; an escape of a lone surrogate is read as
such. -/
def codeEscape (letter : Text) : Except Stop (CodePoint × Text) :=
  match hex4? letter.tail with
  | none | some (_, []) => .error (.complaint .codeEscape letter)
  | some (high, rest) =>
    if 0xD800 ≤ high && high ≤ 0xDBFF then
      match behind? "\\u" rest with
      | none => .ok (.ofNat high, rest)
      | some more =>
        match hex4? more with
        | none | some (_, []) => .error (.complaint .codeEscape (rest.drop 1))
        | some (low, after) =>
          if 0xDC00 ≤ low && low ≤ 0xDFFF then
            .ok (.ofNat (0x10000 + (high - 0xD800) * 0x400 + (low - 0xDC00)), after)
          else .ok (.ofNat high, rest)
    else .ok (.ofNat high, rest)

/-- A string behind the quote that `start` begins with. -/
def string (start : Text) : (fuel : Nat) → Text → Except Stop (Text × Text)
  | 0, _ | _, [] => .error (.complaint .unterminated start)
  | fuel + 1, c :: rest => do
    if c = '\"' then return ([], rest)
    else if c.val < 0x20 then .error (.complaint .controlCharacter (c :: rest))
    else if c = '\\' then
      match rest with
      | [] => .error (.complaint .unterminated start)
      | d :: after =>
        let (character, after) ← (if d = 'u' then codeEscape rest else match escaped? d with
          | some e => .ok (e, after)
          | none => .error (.complaint .escape (c :: rest)))
        let (text, after) ← string start fuel after
        return (character :: text, after)
    else
      let (text, rest) ← string start fuel rest
      return (c :: text, rest)

/-! ## numbers -/

/-- The fraction of a number, with its point, if there is one. -/
def fraction (t : Text) : Text × Text :=
  match t with
  | c :: rest =>
    let digits := rest.takeWhile CodePoint.isDigit
    if c = '.' && digits ≠ [] then (c :: digits, rest.drop digits.length) else ([], t)
  | [] => ([], [])

/-- The exponent of a number, with its letter, if there is one. -/
def exponent (t : Text) : Text × Text :=
  match t with
  | c :: rest =>
    let sign := (rest.take 1).filter (·.isAny ['+', '-'])
    let digits := (rest.drop sign.length).takeWhile CodePoint.isDigit
    if c.isAny ['e', 'E'] && digits ≠ [] then (c :: sign ++ digits, rest.drop (sign.length + digits.length))
    else ([], t)
  | [] => ([], [])

/-- A number; digits behind a leading zero do not belong to it. -/
def number (start : Text) : Except Stop (Value × Text) :=
  let negative := start.head? = some '-'
  let t := if negative then start.tail else start
  let digits := if t.head? = some '0' then t.take 1 else t.takeWhile CodePoint.isDigit
  if digits = [] then .error (.complaint .value start)
  else
    let (fraction, rest) := fraction (t.drop digits.length)
    let (exponent, rest) := exponent rest
    if fraction = [] && exponent = [] then
      if digits.length > maxDigits then .error (.numeralTooLong digits.length)
      else
        let n : Int := digitsValue digits
        .ok (.int (if negative then -n else n), rest)
    else
      match Binary64.ofUnsigned? negative (digits ++ fraction ++ exponent) with
      | some x => .ok (.scalar (.float x), rest)
      | none => .error (.complaint .value start)

/-- The words that are values. -/
def words : List (String × Value) := [
  ("null", .null), ("true", .bool true), ("false", .bool false), ("NaN", .scalar (.float .nan)),
  ("Infinity", .scalar (.float (.infinite false))), ("-Infinity", .scalar (.float (.infinite true)))]

/-! ## values -/

mutual

/-- The value at the beginning of a text. -/
def value : (fuel : Nat) → Text → Except Stop (Value × Text)
  | 0, t => .error (.complaint .value t)
  | _, [] => .error (.complaint .value [])
  | fuel + 1, c :: rest =>
    if c = '\"' then do
      let (t, rest) ← string (c :: rest) (rest.length + 1) rest
      return (.text t, rest)
    else if c = '[' then do
      let rest := skipBlanks rest
      match behind? "]" rest with
      | some rest => return (.list [], rest)
      | none =>
        let (items, rest) ← items fuel rest
        return (.list items, rest)
    else if c = '{' then do
      let rest := skipBlanks rest
      match behind? "\x7d" rest with
      | some rest => return (.mapping [], rest)
      | none =>
        let (entries, rest) ← entries fuel rest
        return (.ofEntries entries, rest)
    else
      match words.findSome? fun w => (behind? w.1 (c :: rest)).map fun r => (w.2, r) with
      | some found => .ok found
      | none => number (c :: rest)

/-- The items up to the closing bracket. -/
def items : (fuel : Nat) → Text → Except Stop (List Value × Text)
  | 0, t => .error (.complaint .value t)
  | fuel + 1, t => do
    let (v, t) ← value fuel t
    let t := skipBlanks t
    match behind? "]" t, behind? "," t with
    | some t, _ => return ([v], t)
    | none, some t =>
      let (vs, t) ← items fuel (skipBlanks t)
      return (v :: vs, t)
    | none, none => .error (.complaint .comma t)

/-- The entries up to the closing brace. -/
def entries : (fuel : Nat) → Text → Except Stop (List (Value × Value) × Text)
  | 0, t => .error (.complaint .name t)
  | fuel + 1, t =>
    match behind? "\"" t with
    | none => .error (.complaint .name t)
    | some inside => do
      let (name, t) ← string t (inside.length + 1) inside
      match behind? ":" (skipBlanks t) with
      | none => .error (.complaint .colon (skipBlanks t))
      | some t =>
        let (v, t) ← value fuel (skipBlanks t)
        let t := skipBlanks t
        match behind? "\x7d" t, behind? "," t with
        | some t, _ => return ([(.text name, v)], t)
        | none, some t =>
          let (es, t) ← entries fuel (skipBlanks t)
          return ((.text name, v) :: es, t)
        | none, none => .error (.complaint .comma t)

end

/-- The value of a whole text; nothing but blanks may stand around it. -/
def document (t : Text) : Except Stop Value := do
  if t.head?.any fun c => c.val = 0xFEFF then .error (.complaint .byteOrderMark t)
  else
    let (v, rest) ← value (t.length + 1) (skipBlanks t)
    let rest := skipBlanks rest
    if rest = [] then return v else .error (.complaint .extra rest)

/-- What a stop means in the text `t`. -/
def Stop.failure (t : Text) : Stop → Failure
  | complaint c rest => .malformed ⟨c, t.take (t.length - rest.length)⟩
  | numeralTooLong n => .numeralTooLong n

/-- The value of a text, or what is wrong with it. -/
def read (t : Text) : Except Failure Value := (document t).mapError (·.failure t)

end UriTemplate.Json
