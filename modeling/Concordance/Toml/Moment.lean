import Concordance.Chars.Numeral

/-!
# Dates and times

A moment is a date, a time of day, or both, then also with an offset from universal time. It has two
written forms: the plain one, and a description that names its kind, used inside of lists.

The readers here take what stands at the start of a text and return the rest. A date that is not in
the calendar is no date.
-/

namespace Concordance

/-- A day of the calendar. -/
structure Date where
  year : Nat
  month : Nat
  day : Nat
  deriving DecidableEq, Inhabited

/-- A time of day. -/
structure Clock where
  hour : Nat
  minute : Nat
  second : Nat
  micros : Nat
  deriving DecidableEq, Inhabited

/-- A date, a time, or both with an offset in minutes, if one is given. -/
inductive Moment where
  | date (date : Date)
  | time (time : Clock)
  | both (date : Date) (time : Clock) (offset : Option Int)
  deriving DecidableEq, Inhabited

/-! ### Writing -/

/-- Numbers between commas. -/
def commaSeparated (numbers : List Nat) : List Char :=
  List.intercalate ", ".toList (numbers.map Chars.numeral)

namespace Date

/-- The date as `year-month-day`. -/
def write (d : Date) : List Char :=
  Chars.paddedNumeral 4 d.year ++ '-' :: Chars.paddedNumeral 2 d.month ++
    '-' :: Chars.paddedNumeral 2 d.day

/-- The numbers of a date. -/
def numbers (d : Date) : List Nat := [d.year, d.month, d.day]

/-- Whether a year has a leap day. -/
def isLeap (year : Nat) : Bool :=
  year % 4 == 0 && (year % 100 != 0 || year % 400 == 0)

/-- The number of days of a month. -/
def daysOf (year month : Nat) : Nat :=
  if month == 2 then (if isLeap year then 29 else 28)
  else if month == 4 || month == 6 || month == 9 || month == 11 then 30
  else 31

/-- Whether the calendar has a date. -/
def isValid (d : Date) : Bool :=
  1 ≤ d.year && 1 ≤ d.month && d.month ≤ 12 && 1 ≤ d.day && d.day ≤ daysOf d.year d.month

end Date

namespace Clock

/-- The time as `hour:minute:second`, with a fraction unless it is zero. -/
def write (t : Clock) : List Char :=
  Chars.paddedNumeral 2 t.hour ++ ':' :: Chars.paddedNumeral 2 t.minute ++
    ':' :: Chars.paddedNumeral 2 t.second ++
    (if t.micros == 0 then [] else '.' :: Chars.paddedNumeral 6 t.micros)

/-- The numbers of a time; zeros at its end are left out, but not the minute. -/
def numbers (t : Clock) : List Nat :=
  [t.hour, t.minute] ++
    if t.micros != 0 then [t.second, t.micros] else if t.second != 0 then [t.second] else []

/-- Whether the day has a time. -/
def isValid (t : Clock) : Bool :=
  t.hour < 24 && t.minute < 60 && t.second < 60

end Clock

namespace Moment

/-- An offset as a sign, hours and minutes. -/
def writeOffset (minutes : Int) : List Char :=
  (if minutes < 0 then '-' else '+') :: Chars.paddedNumeral 2 (minutes.natAbs / 60) ++
    ':' :: Chars.paddedNumeral 2 (minutes.natAbs % 60)

/-- The plain form of a moment. -/
def write : Moment → List Char
  | .date d => d.write
  | .time t => t.write
  | .both d t offset => d.write ++ ' ' :: t.write ++ (offset.map writeOffset).getD []

/-- The description of an offset: so many seconds after a number of whole days. -/
def describeOffset (minutes : Int) : List Char :=
  if minutes == 0 then "datetime.timezone.utc".toList
  else
    let seconds := (60 * minutes % 86400).toNat
    "datetime.timezone(datetime.timedelta(".toList ++
      (if minutes < 0 then "days=-1, ".toList else []) ++ "seconds=".toList ++
      Chars.numeral seconds ++ "))".toList

/-- The description of a moment. -/
def describe : Moment → List Char
  | .date d => "datetime.date(".toList ++ commaSeparated d.numbers ++ [')']
  | .time t => "datetime.time(".toList ++ commaSeparated t.numbers ++ [')']
  | .both d t offset =>
    "datetime.datetime(".toList ++ commaSeparated (d.numbers ++ t.numbers) ++
      (match offset with
        | none => []
        | some minutes => ", tzinfo=".toList ++ describeOffset minutes) ++ [')']

/-! ### Reading -/

/-- A number of exactly `width` digits. -/
def digits? (width : Nat) (cs : List Char) : Option (Nat × List Char) :=
  let ds := cs.take width
  if ds.length == width && ds.all Chars.isAsciiDigit then
    some (Chars.numeralValue ds, cs.drop width)
  else none

/-- What follows a mark. -/
def after? (mark : Char) : List Char → Option (List Char)
  | [] => none
  | c :: rest => if c == mark then some rest else none

/-- A date of the calendar. -/
def date? (cs : List Char) : Option (Date × List Char) := do
  let (year, cs) ← digits? 4 cs
  let (month, cs) ← digits? 2 (← after? '-' cs)
  let (day, cs) ← digits? 2 (← after? '-' cs)
  let d : Date := ⟨year, month, day⟩
  if d.isValid then some (d, cs) else none

/-- The fraction of a second in millionths, further digits dropped; without digits, nothing. -/
def fraction (cs : List Char) : Nat × List Char :=
  match cs with
  | '.' :: rest =>
    let ds := rest.takeWhile Chars.isAsciiDigit
    if ds.isEmpty then (0, cs)
    else
      let six := ds.take 6
      (Chars.numeralValue (six ++ List.replicate (6 - six.length) '0'), rest.drop ds.length)
  | _ => (0, cs)

/-- A time of day. -/
def clock? (cs : List Char) : Option (Clock × List Char) := do
  let (hour, cs) ← digits? 2 cs
  let (minute, cs) ← digits? 2 (← after? ':' cs)
  let (second, cs) ← digits? 2 (← after? ':' cs)
  let (micros, cs) := fraction cs
  let t : Clock := ⟨hour, minute, second, micros⟩
  if t.isValid then some (t, cs) else none

/-- An offset from universal time. -/
def offset? : List Char → Option (Int × List Char)
  | [] => none
  | c :: rest =>
    if c == 'Z' || c == 'z' then some (0, rest)
    else if c == '+' || c == '-' then do
      let (hours, rest) ← digits? 2 rest
      let (minutes, rest) ← digits? 2 (← after? ':' rest)
      if hours < 24 && minutes < 60 then
        let total : Int := 60 * hours + minutes
        some (if c == '-' then -total else total, rest)
      else none
    else none

/-- The time after a date, behind a blank or a letter T. -/
def timeAfter? : List Char → Option (Clock × List Char)
  | [] => none
  | c :: rest => if c == 'T' || c == 't' || c == ' ' then clock? rest else none

/-- A moment at the start of a text. -/
def read? (cs : List Char) : Option (Moment × List Char) :=
  match date? cs with
  | some (d, rest) =>
    match timeAfter? rest with
    | none => some (.date d, rest)
    | some (t, rest) =>
      match offset? rest with
      | none => some (.both d t none, rest)
      | some (minutes, rest) => some (.both d t (some minutes), rest)
  | none => (clock? cs).map fun (t, rest) => (.time t, rest)

end Moment

end Concordance
