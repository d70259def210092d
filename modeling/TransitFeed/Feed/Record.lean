import TransitFeed.Feed.Column
import TransitFeed.Feed.Issue

/-!
# Records

A record is one row of a collection: a cell per column of its kind, in column order,
the line it was read from, the cells of columns its kind does not know (kept in file
order), and the problems met while reading it.

The identifier of a record is the text of its kind's identifier column, and the empty
text for kinds without one.
-/

namespace TransitFeed

/-- One row of a collection. -/
structure Record where
  kind : Kind
  /-- One cell per column of the kind, in column order. -/
  cells : List Cell
  line : Option Nat := none
  /-- Columns the kind does not know, with their values, in file order. -/
  extra : List (String × String) := []
  /-- Problems met while reading the row. -/
  loadIssues : List Issue := []
  deriving Inhabited

namespace Record

/-- The record of a kind before any cell is read. -/
def empty (k : Kind) : Record := { kind := k, cells := k.columns.map Column.initial }

/-- The cell of a named column; absent for a column the kind does not have. -/
def cell (r : Record) (name : String) : Cell :=
  match r.kind.columnIndex? name with
  | some i => (r.cells[i]?).getD none
  | none => none

/-- Replaces the cell of a named column. -/
def setCell (r : Record) (name : String) (c : Cell) : Record :=
  match r.kind.columnIndex? name with
  | some i => { r with cells := r.cells.set i c }
  | none => r

/-- The feed text of a named column, the empty text when absent. -/
def str (r : Record) (name : String) : String := (r.cell name).toText

/-- Whether a named column is filled in. -/
def isPresent (r : Record) (name : String) : Bool :=
  match r.kind.columns.find? (·.name == name) with
  | some col => Cell.present col.optional (r.cell name)
  | none => false

/-- The integer of a named column, if present. -/
def int? (r : Record) (name : String) : Option Int :=
  match r.cell name with
  | some (.int n) => some n
  | _ => none

/-- The float of a named column, if present. -/
def real? (r : Record) (name : String) : Option Float :=
  match r.cell name with
  | some (.real x) => some x
  | _ => none

/-- The date of a named column, if present. -/
def date? (r : Record) (name : String) : Option Date :=
  match r.cell name with
  | some (.date d) => some d
  | _ => none

/-- The time of a named column, if present. -/
def time? (r : Record) (name : String) : Option Time :=
  match r.cell name with
  | some (.time t) => some t
  | _ => none

/-- The colour of a named column, if present. -/
def color? (r : Record) (name : String) : Option Color :=
  match r.cell name with
  | some (.color c) => some c
  | _ => none

/-- The text of a named text column, if present and not empty. -/
def text? (r : Record) (name : String) : Option String :=
  match r.cell name with
  | some (.text s) => if s.isEmpty then none else some s
  | _ => none

/-- The flag of a named column. -/
def flag (r : Record) (name : String) : Bool :=
  match r.cell name with
  | some (.flag b) => b
  | _ => false

/-- The identifier of a record, empty for kinds without identifier column. -/
def entityId (r : Record) : String :=
  match r.kind.idColumn? with
  | some c => r.str c
  | none => ""

/-- Replaces the identifier of a record. -/
def setEntityId (r : Record) (id : String) : Record :=
  match r.kind.idColumn? with
  | some c => r.setCell c (some (.text id))
  | none => r

/-- The feed text of every column, in column order. -/
def textRow (r : Record) : List String := r.cells.map Cell.toText

/-- The relational cell of every column, in column order. -/
def sqlRow (r : Record) : List SqlValue := r.cells.map Cell.toSql

/-- The feed text of a named column, or nothing if the kind has no such column. -/
def fieldText? (r : Record) (name : String) : Option String :=
  (r.kind.columnIndex? name).map fun _ => r.str name

/-- The record as a JSON object of its columns, in column order. -/
def toJson (r : Record) : Json :=
  .obj (r.kind.columns.zip r.cells |>.map fun (c, v) => (c.name, Cell.toJson v))

/-- The calendar column that holds the flag of a weekday. -/
def weekdayColumn : Date.Weekday → String
  | .monday => "monday"
  | .tuesday => "tuesday"
  | .wednesday => "wednesday"
  | .thursday => "thursday"
  | .friday => "friday"
  | .saturday => "saturday"
  | .sunday => "sunday"

/-- Whether a calendar runs on the weekday of a date, whatever its range. -/
def runsOn (r : Record) (d : Date) : Bool := r.flag (weekdayColumn d.weekday)

/-- A date as written in record descriptions, or `-` when absent. -/
def dateDescription : Option Date → String
  | some d => d.iso
  | none => "-"

/-- The short description of a record, for the kinds that have one. -/
def description? (r : Record) : Option String :=
  match r.kind with
  | .feedInfo => some (r.str "feed_publisher_name")
  | .agency => some (r.str "agency_name")
  | .stop => some (r.str "stop_name")
  | .calendar =>
    some (dateDescription (r.date? "start_date") ++ "—" ++ dateDescription (r.date? "end_date"))
  | .route =>
    some (if r.isPresent "route_long_name" then r.str "route_long_name" else r.str "route_short_name")
  | .trip => some ("route id: " ++ r.str "route_id" ++ ", service id: " ++ r.str "service_id")
  | _ => none

end Record

end TransitFeed
