import TransitFeed.Feed.Record

/-!
# Moving a feed to other dates

A redating replays `sourceDays` days starting at `start` over `targetDays` days starting
at `target`: target day `o` replays source day `start + (o mod sourceDays)`.

A calendar is given the whole target window, and runs on a weekday when some target day
of that weekday replays a source day inside the calendar's old range (an absent bound
is no bound) on which the calendar ran. A calendar date inside the source window becomes
one calendar date per target day that replays it, in increasing order; outside the
window it disappears. The feed information keeps its dates only where it had them, set
to the ends of the target window.

Dates are moved by whole days, and the arithmetic aborts the run on a day count beyond what
a time span holds, or on a date outside the supported range. The moves above are those of
unbounded day numbers; `filterPanic?` and `expandPanic?` say when, and with which message,
the arithmetic aborts before they finish.
-/

namespace TransitFeed

/-- How a feed is moved to other dates. -/
structure Redate where
  start : Date
  sourceDays : Int
  target : Date
  targetDays : Int
  deriving Repr, DecidableEq

namespace Redate

/-- A redating, if both windows have at least one day. -/
def make? (start : Date) (sourceDays : Int) (target : Date) (targetDays : Int) :
    Except String Redate :=
  if sourceDays < 1 || targetDays < 1 then
    .error s!"redate needs at least one source and one target day, got {sourceDays} and {targetDays}"
  else .ok ⟨start, sourceDays, target, targetDays⟩

/-- The date `n` days after a date. -/
def shift (d : Date) (n : Int) : Date := ⟨d.day + n⟩

/-- The last target day. -/
def targetEnd (r : Redate) : Date := shift r.target (r.targetDays - 1)

/-- The source day replayed on target day `o`. -/
def sourceDate (r : Redate) (o : Nat) : Date := shift r.start ((o : Int) % r.sourceDays)

/-- Whether a date lies in a range whose absent bounds are no bounds. -/
def inRange (lo hi : Option Date) (d : Date) : Bool :=
  (match lo with | some s => s ≤ d | none => true) && (match hi with | some e => d ≤ e | none => true)

/-- The weekdays on which target days `o` with `from ≤ o < from + count` replay an active
source day of a calendar. -/
def activeWeekdays (r : Redate) (c : Record) (lo hi : Option Date) (from_ : Nat) :
    Nat → List Date.Weekday
  | 0 => []
  | count + 1 =>
    let source := r.sourceDate from_
    let rest := r.activeWeekdays c lo hi (from_ + 1) count
    if inRange lo hi source && c.runsOn source then (shift r.target from_).weekday :: rest else rest

/-- The weekday columns in week order. -/
def week : List Date.Weekday := [.monday, .tuesday, .wednesday, .thursday, .friday, .saturday, .sunday]

/-- The calendar moved to the target window. -/
def calendar (r : Redate) (c : Record) : Record :=
  let lo := c.date? "start_date"
  let hi := c.date? "end_date"
  let active := r.activeWeekdays c lo hi 0 r.targetDays.toNat
  let flagged := week.foldl (fun (c : Record) w =>
    c.setCell (Record.weekdayColumn w) (some (.flag (active.contains w)))) c
  (flagged.setCell "start_date" (some (.date r.target))).setCell "end_date" (some (.date r.targetEnd))

/-- The target days `o, o + sourceDays, …` below `targetDays`, as dates. -/
def replays (r : Redate) (o : Int) : List Date :=
  if h : 0 < r.sourceDays then
    go o (r.targetDays - o).toNat h
  else []
where
  go (o : Int) (fuel : Nat) (h : 0 < r.sourceDays) : List Date :=
    match fuel with
    | 0 => []
    | fuel + 1 =>
      if o < r.targetDays then shift r.target o :: go (o + r.sourceDays) fuel h else []

/-- The target dates that replay a source date; none outside the source window. -/
def targetDates (r : Redate) (d : Date) : List Date :=
  let offset := d.diff r.start
  if offset < 0 || offset ≥ r.sourceDays then [] else r.replays offset

/-- Moves the dates of a calendar or of the feed information. -/
def filter (r : Redate) (e : Record) : Record :=
  match e.kind with
  | .calendar => r.calendar e
  | .feedInfo =>
    let e := if e.isPresent "feed_start_date" then e.setCell "feed_start_date" (some (.date r.target)) else e
    if e.isPresent "feed_end_date" then e.setCell "feed_end_date" (some (.date r.targetEnd)) else e
  | _ => e

/-- Replays a calendar date on its target dates; other records are left alone. -/
def expand (r : Redate) (e : Record) : Option (List Record) :=
  match e.kind, e.date? "date" with
  | .calendarDate, some d => some ((r.targetDates d).map fun t => e.setCell "date" (some (.date t)))
  | _, _ => none

/-- The most days a time span holds: `i64::MAX` milliseconds, in whole days. -/
def maxSpanDays : Int := 106751991167

/-- Whether the day arithmetic `d + n days` aborts, and with which message: a day count
beyond what a time span holds, or a date outside the supported range. -/
def shiftPanic? (d : Date) (n : Int) : Option String :=
  if n < -maxSpanDays ∨ maxSpanDays < n then some "TimeDelta::days out of bounds"
  else if (d.addDays? n).isSome then none
  else some "`NaiveDate + TimeDelta` overflowed"

/-- The abort of the replay of a calendar on target day `o`, if any: of the source day it
replays, then of the target day itself when that source day is active. -/
def dayPanic? (r : Redate) (c : Record) (lo hi : Option Date) (o : Nat) : Option String :=
  (shiftPanic? r.start ((o : Int) % r.sourceDays)).or
    (if inRange lo hi (r.sourceDate o) && c.runsOn (r.sourceDate o) then shiftPanic? r.target o
    else none)

/-- The first abort of the day arithmetic of moving a record's dates in place, if any: a
calendar visits the target days in order and then the last target day; the feed information
needs the last target day only when it has an end date. -/
def filterPanic? (r : Redate) (e : Record) : Option String :=
  match e.kind with
  | .calendar =>
    ((List.range r.targetDays.toNat).findSome? (r.dayPanic? e (e.date? "start_date") (e.date? "end_date"))).or
      (shiftPanic? r.target (r.targetDays - 1))
  | .feedInfo => if e.isPresent "feed_end_date" then shiftPanic? r.target (r.targetDays - 1) else none
  | _ => none

/-- The first abort of the day arithmetic of replaying a calendar date, if any: its target
dates are computed in increasing order. -/
def expandPanic? (r : Redate) (e : Record) : Option String :=
  match e.kind, e.date? "date" with
  | .calendarDate, some d => (r.targetDates d).findSome? fun t => shiftPanic? r.target (t.diff r.target)
  | _, _ => none

end Redate

end TransitFeed
