import TransitFeed.Text.Blank

/-!
# Calendar dates

A date is a day of the proleptic Gregorian calendar, counted from 1970-01-01, between
-262144-01-01 and 262143-12-31. Feed files write dates as `YYYYMMDD`, databases and
configuration files as `YYYY-MM-DD`; a year outside 0..9999 carries its sign and at
least four digits.

Reading follows a list of items (year, month, day, a literal dash, optional blanks) and
stops at the first fault: a missing field is `tooShort`, an unexpected character
`invalid`, a field or date out of bounds `outOfRange`, and text left over `tooLong`. A
year without sign has at most four digits, a signed year takes all the digits.
-/

namespace TransitFeed

/-- A day of the proleptic Gregorian calendar, counted from 1970-01-01. -/
structure Date where
  day : Int
  deriving DecidableEq, Repr, Hashable

namespace Date

instance : Ord Date := ⟨fun a b => compare a.day b.day⟩
instance : LT Date := ⟨fun a b => a.day < b.day⟩
instance : LE Date := ⟨fun a b => a.day ≤ b.day⟩
instance (a b : Date) : Decidable (a < b) := inferInstanceAs (Decidable (a.day < b.day))
instance (a b : Date) : Decidable (a ≤ b) := inferInstanceAs (Decidable (a.day ≤ b.day))

/-- The first year of the supported range. -/
def minYear : Int := -262144
/-- The last year of the supported range. -/
def maxYear : Int := 262143

/-- Whether the year has a 29th of February. -/
def leapYear (y : Int) : Bool := (y % 4 == 0 && y % 100 != 0) || y % 400 == 0

/-- The number of days of a month of the given year. -/
def monthLength (y : Int) (m : Nat) : Nat :=
  match m with
  | 2 => if leapYear y then 29 else 28
  | 4 | 6 | 9 | 11 => 30
  | _ => 31

/-- The day count of a valid civil date, by whole 400-year eras from 0000-03-01. -/
def dayOfCivil (y : Int) (m d : Nat) : Int :=
  let y := if m ≤ 2 then y - 1 else y
  let era := y / 400
  let yoe := y - era * 400
  let mp : Int := if m > 2 then (m : Int) - 3 else (m : Int) + 9
  let doy := (153 * mp + 2) / 5 + d - 1
  let doe := yoe * 365 + yoe / 4 - yoe / 100 + doy
  era * 146097 + doe - 719468

/-- The date of a year, month and day, if the day exists and the year is supported. -/
def ofCivil? (y : Int) (m d : Nat) : Option Date :=
  if minYear ≤ y && y ≤ maxYear && 1 ≤ m && m ≤ 12 && 1 ≤ d && d ≤ monthLength y m then
    some ⟨dayOfCivil y m d⟩
  else none

/-- Year, month and day of a date. -/
def civil (date : Date) : Int × Nat × Nat :=
  let z := date.day + 719468
  let era := z / 146097
  let doe := z - era * 146097
  let yoe := (doe - doe / 1460 + doe / 36524 - doe / 146096) / 365
  let y := yoe + era * 400
  let doy := doe - (365 * yoe + yoe / 4 - yoe / 100)
  let mp := (5 * doy + 2) / 153
  let d := doy - (153 * mp + 2) / 5 + 1
  let m := if mp < 10 then mp + 3 else mp - 9
  ((if m ≤ 2 then y + 1 else y), m.toNat, d.toNat)

/-- The first supported date. -/
def min : Date := ⟨dayOfCivil minYear 1 1⟩
/-- The last supported date. -/
def max : Date := ⟨dayOfCivil maxYear 12 31⟩

/-- The date `n` days later, if it stays in the supported range. -/
def addDays? (date : Date) (n : Int) : Option Date :=
  let d : Date := ⟨date.day + n⟩
  if min.day ≤ d.day && d.day ≤ max.day then some d else none

/-- Days from `b` to `a`. -/
def diff (a b : Date) : Int := a.day - b.day

/-- Days of the week, Monday first. -/
inductive Weekday where
  | monday | tuesday | wednesday | thursday | friday | saturday | sunday
  deriving DecidableEq, Repr

/-- The weekday of a number of days after a Monday. -/
def Weekday.ofIndex (i : Nat) : Weekday :=
  match i % 7 with
  | 0 => .monday
  | 1 => .tuesday
  | 2 => .wednesday
  | 3 => .thursday
  | 4 => .friday
  | 5 => .saturday
  | _ => .sunday

/-- The day of the week; 1970-01-01 was a Thursday. -/
def weekday (date : Date) : Weekday := Weekday.ofIndex ((date.day + 3) % 7).toNat

/-- A natural written with at least `width` digits. -/
def padded (width : Nat) (n : Nat) : String :=
  let s := toString n
  String.ofList (List.replicate (width - s.length) '0') ++ s

/-- The year as written in dates: four digits, or a sign and at least four digits. -/
def yearText (y : Int) : String :=
  if 0 ≤ y && y ≤ 9999 then padded 4 y.toNat
  else (if y < 0 then "-" else "+") ++ padded 4 y.natAbs

/-- The `YYYYMMDD` text of feed files. -/
def compact (date : Date) : String :=
  let (y, m, d) := date.civil
  yearText y ++ padded 2 m ++ padded 2 d

/-- The `YYYY-MM-DD` text of databases and configuration files. -/
def iso (date : Date) : String :=
  let (y, m, d) := date.civil
  yearText y ++ "-" ++ padded 2 m ++ "-" ++ padded 2 d

end Date

/-- Why a text is not a date. -/
inductive DateError where
  | outOfRange
  | invalid
  | tooShort
  | tooLong
  deriving DecidableEq, Repr

/-- The sentence that names a date reading fault. -/
def DateError.message : DateError → String
  | .outOfRange => "input is out of range"
  | .invalid => "input contains invalid characters"
  | .tooShort => "premature end of input"
  | .tooLong => "trailing input"

/-- One piece of a date layout. -/
inductive DateItem where
  | year
  | month
  | day
  | dash
  | blanks
  deriving DecidableEq, Repr

/-- `YYYYMMDD`. -/
def DateItem.compact : List DateItem := [.year, .month, .day]
/-- `YYYY-MM-DD`, as written by databases. -/
def DateItem.iso : List DateItem := [.year, .dash, .month, .dash, .day]
/-- `YYYY-MM-DD` with blanks allowed before each dash and at the end. -/
def DateItem.isoBlanks : List DateItem :=
  [.year, .blanks, .dash, .month, .blanks, .dash, .day, .blanks]

/-- Reads between `1` and `max` leading digits. -/
def scanNumber (cs : List Char) (max : Nat) : Except DateError (Int × List Char) :=
  match cs with
  | [] => .error .tooShort
  | c :: _ =>
    if !c.isDigit then .error .invalid
    else
      let ds := (cs.take max).takeWhile Char.isDigit
      let v : Int := ds.foldl (fun acc c => acc * 10 + (c.toNat - '0'.toNat)) 0
      if v > 9223372036854775807 then .error .outOfRange
      else .ok (v, cs.drop ds.length)

/-- Year, month and day fields read so far. -/
structure DateFields where
  year : Option Int := none
  month : Option Nat := none
  day : Option Nat := none

/-- Reads the items of a layout in order, filling the fields. -/
def readItems : List DateItem → List Char → DateFields → Except DateError DateFields
  | [], [], fields => .ok fields
  | [], _ :: _, _ => .error .tooLong
  | .blanks :: items, cs, fields => readItems items (cs.dropWhile isBlank) fields
  | .dash :: items, cs, fields =>
    match cs with
    | [] => .error .tooShort
    | c :: rest => if c == '-' then readItems items rest fields else .error .invalid
  | .year :: items, cs, fields =>
    let cs := cs.dropWhile isBlank
    let number : Except DateError (Int × List Char) :=
      match cs with
      | '-' :: rest => (scanNumber rest 1000000).map fun (v, r) => (-v, r)
      | '+' :: rest => scanNumber rest 1000000
      | _ => scanNumber cs 4
    match number with
    | .error e => .error e
    | .ok (v, rest) =>
      if -2147483648 ≤ v && v ≤ 2147483647 then readItems items rest { fields with year := v }
      else .error .outOfRange
  | .month :: items, cs, fields =>
    match scanNumber (cs.dropWhile isBlank) 2 with
    | .error e => .error e
    | .ok (v, rest) =>
      if 1 ≤ v && v ≤ 12 then readItems items rest { fields with month := v.toNat }
      else .error .outOfRange
  | .day :: items, cs, fields =>
    match scanNumber (cs.dropWhile isBlank) 2 with
    | .error e => .error e
    | .ok (v, rest) =>
      if 1 ≤ v && v ≤ 31 then readItems items rest { fields with day := v.toNat }
      else .error .outOfRange

/-- A dash is read as the dash of a layout. -/
@[simp] theorem readItems_dash (items : List DateItem) (rest : List Char) (fields : DateFields) :
    readItems (.dash :: items) ('-' :: rest) fields = readItems items rest fields := by
  simp [readItems]

/-- Blanks allowed before a dash are none. -/
@[simp] theorem readItems_blanks_dash (items : List DateItem) (rest : List Char) (fields : DateFields) :
    readItems (.blanks :: items) ('-' :: rest) fields = readItems items ('-' :: rest) fields := by
  simp [readItems, show isBlank '-' = false by decide]

/-- Reads a date laid out as the items say. -/
def Date.read (layout : List DateItem) (s : String) : Except DateError Date :=
  match readItems layout s.toList {} with
  | .error e => .error e
  | .ok { year := some y, month := some m, day := some d } =>
    match Date.ofCivil? y m d with
    | some date => .ok date
    | none => .error .outOfRange
  | .ok _ => .error .outOfRange

end TransitFeed
