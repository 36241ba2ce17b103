import UriTemplate.Number.Numeral
import UriTemplate.Value.Timestamp
import UriTemplate.Yaml.Position

/-!
# Timestamps in YAML

* `Yaml.DateFields` — the numbers of a timestamp as they are written, `readDate` how they are read;
* `isPlainTimestamp` — the plain scalars that are timestamps;
* `timestampOf?` — the timestamp of a text.
-/

namespace UriTemplate.Yaml

/-- The time of a timestamp as it is written; `zone` is the sign of an offset with its hours and minutes, or nothing
for universal time. -/
structure TimeFields where
  hour : Text
  minute : Text
  second : Text
  fraction : Text
  zone : Option (Option (Bool × Text × Text))

structure DateFields where
  year : Text
  month : Text
  day : Text
  time : Option TimeFields

/-- From `low` to `high` digits, and the text behind them. -/
def digits? (low high : Nat) (t : Text) : Option (Text × Text) :=
  let digits := (t.take high).takeWhile CodePoint.isDigit
  if low ≤ digits.length then some (digits, t.drop digits.length) else none

/-- Behind the character `c`. -/
def behind? (c : CodePoint) (t : Text) : Option Text :=
  match t with
  | d :: rest => if d = c then some rest else none
  | [] => none

/-- The end of a timestamp: an offset or `Z`, perhaps behind blanks, or nothing at all. -/
def readZone (t : Text) : Option (Option (Option (Bool × Text × Text))) :=
  if t = [] then some none
  else
    let t := t.dropWhile isSpace
    if t = Text.ofString "Z" then some (some none)
    else match t with
      | sign :: rest => do
        if !sign.isAny ['+', '-'] then failure
        let (hours, rest) ← digits? 1 2 rest
        if rest = [] then return some (some (sign = '-', hours, []))
        let (minutes, rest) ← digits? 2 2 (← behind? ':' rest)
        if rest = [] then return some (some (sign = '-', hours, minutes)) else failure
      | [] => none

/-- The time behind what separates it from the day. -/
def readTime (t : Text) : Option TimeFields := do
  let (hour, t) ← digits? 1 2 t
  let (minute, t) ← digits? 2 2 (← behind? ':' t)
  let (second, t) ← digits? 2 2 (← behind? ':' t)
  let (fraction, t) : Text × Text := match behind? '.' t with
    | some rest => (rest.takeWhile CodePoint.isDigit, rest.dropWhile CodePoint.isDigit)
    | none => ([], t)
  return { hour, minute, second, fraction, zone := ← readZone t }

/-- A day, and perhaps a time behind `T`, `t` or blanks. -/
def readDate (t : Text) : Option DateFields := do
  let (year, t) ← digits? 4 4 t
  let (month, t) ← digits? 1 2 (← behind? '-' t)
  let (day, t) ← digits? 1 2 (← behind? '-' t)
  match t with
  | [] => return { year, month, day, time := none }
  | c :: rest =>
    let rest ← if c.isAny ['T', 't'] then some rest else if isSpace c then some (rest.dropWhile isSpace) else none
    return { year, month, day, time := ← readTime rest }

/-- A line feed at the end of a text does not count. -/
def withoutFinalBreak (t : Text) : Text := if t.getLast? = some '\n' then t.dropLast else t

/-- Whether a plain scalar is a timestamp.  Without a time, month and day have two digits. -/
def isPlainTimestamp (t : Text) : Bool :=
  match readDate t with
  | some d => d.time.isSome || (d.month.length = 2 && d.day.length = 2)
  | none => false

/-- The microseconds of a fraction of a second, the seventh digit rounded. -/
def microseconds (fraction : Text) : Nat :=
  let digits := fraction.take 6
  digitsValue digits * 10 ^ (6 - digits.length) + (if (fraction[6]?).any (0x35 ≤ ·.val) then 1 else 0)

def DateFields.timestamp (d : DateFields) : Except CalendarError Timestamp :=
  let date : Date := ⟨digitsValue d.year, digitsValue d.month, digitsValue d.day⟩
  match d.time with
  | none => Timestamp.ofDay date
  | some t =>
    let time : TimeOfDay :=
      ⟨digitsValue t.hour, digitsValue t.minute, digitsValue t.second, microseconds t.fraction⟩
    let offset : Option Int := t.zone.map fun zone => match zone with
      | none => 0
      | some (behind, hours, minutes) =>
        let span : Int := digitsValue hours * 60 + digitsValue minutes
        if behind then -span else span
    Timestamp.ofMoment date time offset

/-- The timestamp of a text, or why its numbers are none; nothing if it is not written like a timestamp. -/
def timestampOf? (t : Text) : Option (Except CalendarError Timestamp) :=
  (readDate (withoutFinalBreak t)).map DateFields.timestamp

end UriTemplate.Yaml
