import TransitFeed.Feed.Record
import TransitFeed.Feed.Error
import TransitFeed.Text.Blank

/-!
# Reading records

A header row is matched against the columns of a kind once: each header names a column
of the kind or an extra column, no header may repeat, and every required column must be
among the headers (the first one missing, in column order, is reported).

A row is then read cell by cell, its values cut of their blanks. An empty value leaves
the column as it is, and is a `required` problem at once for a required column whose
type has no absent state; a value that does not read is a `field` problem; a value
beyond the last header is a `row` problem. Problems found here carry the row's line.

Records are also read from named relational cells, where a cell that does not read is a
`field` problem without value or line.
-/

namespace TransitFeed

/-- Where each header of a file goes: a column of the kind, or an extra column. -/
structure ColumnMap where
  kind : Kind
  /-- For each header, the position of its column in the kind, if it has one. -/
  columns : List (Option Nat)
  headers : List String
  deriving Inhabited

namespace ColumnMap

/-- Matches the headers of a file against the columns of a kind. -/
def build (k : Kind) (file : String) (headers : List String) : Except FeedError ColumnMap :=
  let rec scan (seen : List String) : List String → Except FeedError (List (Option Nat))
    | [] => .ok []
    | h :: rest =>
      if seen.contains h then .error (.duplicateColumn file h)
      else (scan (h :: seen) rest).map fun cols => k.columnIndex? h :: cols
  match scan [] headers with
  | .error e => .error e
  | .ok columns =>
    match k.columns.find? (fun c => c.required && !headers.contains c.name) with
    | some c => .error (.missingColumn file c.name)
    | none => .ok { kind := k, columns, headers }

end ColumnMap

namespace Record

/-- The state of a row being read: the record so far and the problems met. -/
structure Reading where
  record : Record
  issues : List Issue := []
  extra : List (String × String) := []

/-- Reads one value of a row into the record being read. -/
def readValue (m : ColumnMap) (st : Reading) (i : Nat) (raw : String) : Reading :=
  let value := trimBlanks raw
  match m.columns[i]? with
  | some (some f) =>
    match m.kind.columns[f]? with
    | none => st
    | some col =>
      if value.isEmpty then
        if col.required && Cell.present col.optional ((st.record.cells[f]?).getD none) then
          { st with issues := st.issues ++ [Issue.required col.name] }
        else st
      else
        match Cell.parse col.type col.optional value with
        | .ok c => { st with record := { st.record with cells := st.record.cells.set f c } }
        | .error e => { st with issues := st.issues ++ [Issue.invalidField col.name value e] }
  | some none => { st with extra := st.extra ++ [((m.headers[i]?).getD "", value)] }
  | none =>
    let n := m.headers.length
    { st with issues := st.issues ++ [Issue.row s!"row has more values than the {n} columns of the header"] }

/-- Reads a row of a file whose headers were matched by the column map. -/
def load (m : ColumnMap) (values : List String) (line : Option Nat) : Record :=
  let st := (values.zipIdx).foldl (fun st (v, i) => readValue m st i v) { record := empty m.kind }
  { st.record with line, extra := st.extra, loadIssues := st.issues.map (·.atLine line) }

/-- Reads a record of a kind from named relational cells; unknown names are ignored. -/
def ofSql (k : Kind) (values : List (String × SqlValue)) : Record :=
  let step (st : Reading) (nv : String × SqlValue) : Reading :=
    match k.columnIndex? nv.1 with
    | none => st
    | some f =>
      match k.columns[f]? with
      | none => st
      | some col =>
        match Cell.ofSql col.type col.optional nv.2 with
        | .ok c => { st with record := { st.record with cells := st.record.cells.set f c } }
        | .error e => { st with issues := st.issues ++ [Issue.onField .field col.name e] }
  let st := values.foldl step { record := empty k }
  { st.record with loadIssues := st.issues }

end Record

end TransitFeed
