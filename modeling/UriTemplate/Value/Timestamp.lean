import UriTemplate.Text.Basic

/-!
# Timestamps

Days of the calendar, and moments of a day.

* `Date`, `TimeOfDay`, `Timestamp` — the types;
* `CalendarError` — why numbers are no timestamp; `Timestamp.ofDay`, `Timestamp.ofMoment` — the timestamp of numbers;
* `Timestamp.text`, `Timestamp.display` — how a timestamp is written, alone and as part of a larger value;
* `Timestamp.same` — when two timestamps are the same.
-/

namespace UriTemplate

structure Date where
  year : Nat
  month : Nat
  day : Nat
deriving DecidableEq

structure TimeOfDay where
  hour : Nat
  minute : Nat
  second : Nat
  microsecond : Nat := 0
deriving DecidableEq

/-- A day, or a moment of a day.  `offset` is how many minutes the clock is ahead of universal time, if that is
known. -/
inductive Timestamp
  | day (d : Date)
  | moment (d : Date) (t : TimeOfDay) (offset : Option Int)
deriving DecidableEq

inductive CalendarError
  | year (n : Nat)
  | month
  | day
  | hour
  | minute
  | second
  /-- A clock may be less than a day ahead or behind. -/
  | offset (minutes : Int)
  /-- There is no day behind the last one of the year 9999. -/
  | beyondLastDay
deriving DecidableEq

/-! ## the calendar -/

def isLeapYear (year : Nat) : Bool := year % 4 = 0 && (year % 100 ≠ 0 || year % 400 = 0)

def daysInMonth (year month : Nat) : Nat :=
  if month = 2 then (if isLeapYear year then 29 else 28) else if month ∈ [4, 6, 9, 11] then 30 else 31

namespace Date

def check (d : Date) : Except CalendarError Unit :=
  if d.year = 0 || 9999 < d.year then .error (.year d.year)
  else if d.month = 0 || 12 < d.month then .error .month
  else if d.day = 0 || daysInMonth d.year d.month < d.day then .error .day
  else .ok ()

/-- The day after `d`. -/
def next (d : Date) : Except CalendarError Date :=
  if d.day < daysInMonth d.year d.month then .ok { d with day := d.day + 1 }
  else if d.month < 12 then .ok { d with month := d.month + 1, day := 1 }
  else if d.year < 9999 then .ok ⟨d.year + 1, 1, 1⟩
  else .error .beyondLastDay

/-- The number of days since the one before the first of January of the year 1. -/
def ordinal (d : Date) : Nat :=
  let y := d.year - 1
  let months := (List.range (d.month - 1)).foldr (fun m days => daysInMonth d.year (m + 1) + days) 0
  y * 365 + y / 4 - y / 100 + y / 400 + months + d.day

end Date

namespace TimeOfDay

def check (t : TimeOfDay) : Except CalendarError Unit :=
  if 23 < t.hour then .error .hour
  else if 59 < t.minute then .error .minute
  else if 59 < t.second then .error .second
  else .ok ()

end TimeOfDay

namespace Timestamp

def ofDay (d : Date) : Except CalendarError Timestamp := do
  d.check
  return .day d

/-- The moment one second later. -/
def laterBySecond (d : Date) (t : TimeOfDay) : Except CalendarError (Date × TimeOfDay) :=
  if t.second < 59 then .ok (d, { t with second := t.second + 1 })
  else if t.minute < 59 then .ok (d, { t with minute := t.minute + 1, second := 0 })
  else if t.hour < 23 then .ok (d, { t with hour := t.hour + 1, minute := 0, second := 0 })
  else do return (← d.next, { t with hour := 0, minute := 0, second := 0 })

/-- A moment of a day; a million microseconds are a second. -/
def ofMoment (d : Date) (t : TimeOfDay) (offset : Option Int) : Except CalendarError Timestamp := do
  if let some minutes := offset then
    if 24 * 60 ≤ minutes.natAbs then throw (.offset minutes)
  d.check
  t.check
  if t.microsecond < 1000000 then return .moment d t offset
  else
    let (d, t) ← laterBySecond d { t with microsecond := 0 }
    return .moment d t offset

/-- Two days, or two moments.  Moments with known offsets are the same if they are the same in universal time. -/
def same : Timestamp → Timestamp → Bool
  | day d, day e => d == e
  | moment d t none, moment e u none => d == e && t == u
  | moment d t (some i), moment e u (some j) =>
    let minutes (d : Date) (t : TimeOfDay) (offset : Int) : Int :=
      d.ordinal * 1440 + t.hour * 60 + t.minute - offset
    minutes d t i == minutes e u j && t.second == u.second && t.microsecond == u.microsecond
  | _, _ => false

/-! ## texts -/

/-- The decimal numeral of `n` with at least `width` digits. -/
def padded (width n : Nat) : Text :=
  let digits := Text.ofNat n
  List.replicate (width - digits.length) ('0' : CodePoint) ++ digits

def dateText (d : Date) : Text := Text.join "-" [padded 4 d.year, padded 2 d.month, padded 2 d.day]

def timeText (t : TimeOfDay) : Text :=
  Text.join ":" [padded 2 t.hour, padded 2 t.minute, padded 2 t.second]
    ++ (if t.microsecond = 0 then [] else ('.' : CodePoint) :: padded 6 t.microsecond)

def offsetText (minutes : Int) : Text :=
  (if minutes < 0 then '-' else '+')
    :: Text.join ":" [padded 2 (minutes.natAbs / 60), padded 2 (minutes.natAbs % 60)]

def text : Timestamp → Text
  | day d => dateText d
  | moment d t offset => dateText d ++ (" " : Text) ++ timeText t ++ (offset.map offsetText).getD []

/-- A span of minutes as whole days and the seconds behind them. -/
def spanText (minutes : Int) : Text :=
  let days := minutes.fdiv 1440
  let seconds := minutes.fmod 1440 * 60
  let parts := (if days = 0 then [] else [("days=" : Text) ++ Text.ofInt days])
    ++ (if seconds = 0 then [] else [("seconds=" : Text) ++ Text.ofInt seconds])
  ("datetime.timedelta(" : Text) ++ (if parts = [] then ("0" : Text) else Text.join ", " parts) ++ (")" : Text)

def zoneText (minutes : Int) : Text :=
  if minutes = 0 then "datetime.timezone.utc"
  else ("datetime.timezone(" : Text) ++ spanText minutes ++ (")" : Text)

def display : Timestamp → Text
  | day d => ("datetime.date(" : Text) ++ Text.join ", " ([d.year, d.month, d.day].map Text.ofNat) ++ (")" : Text)
  | moment d t offset =>
    let seconds := if t.microsecond ≠ 0 then [t.second, t.microsecond] else if t.second ≠ 0 then [t.second] else []
    let numbers := ([d.year, d.month, d.day, t.hour, t.minute] ++ seconds).map Text.ofNat
    let zone := offset.toList.map fun minutes => ("tzinfo=" : Text) ++ zoneText minutes
    ("datetime.datetime(" : Text) ++ Text.join ", " (numbers ++ zone) ++ (")" : Text)

end Timestamp

def CalendarError.message : CalendarError → Text
  | year n => ("year " : Text) ++ Text.ofNat n ++ (" is out of range" : Text)
  | month => "month must be in 1..12"
  | day => "day is out of range for month"
  | hour => "hour must be in 0..23"
  | minute => "minute must be in 0..59"
  | second => "second must be in 0..59"
  | offset minutes =>
    ("offset must be a timedelta strictly between -timedelta(hours=24) and timedelta(hours=24), not " : Text)
      ++ Timestamp.spanText minutes ++ ("." : Text)
  | beyondLastDay => "date value out of range"

end UriTemplate
