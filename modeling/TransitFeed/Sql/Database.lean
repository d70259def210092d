import TransitFeed.Sql.Convert

/-!
# Tables of a relational store

A table has named columns, each with an affinity, and rows kept in the order of their
row ids. A column declared `INTEGER PRIMARY KEY` holds the row id itself: a row given no
id gets one more than the largest one, or, when the table counts with `AUTOINCREMENT`,
one more than the largest one it ever held. Names of tables and columns are compared
without regard to ASCII case.
-/

namespace TransitFeed.Sql

/-- A column of a table. -/
structure ColumnDef where
  name : String
  affinity : Affinity := .blob
  deriving Repr, Inhabited

/-- A table: its columns, the column that holds the row id if there is one, and its rows
with their row ids, in row id order. -/
structure Table where
  name : String
  columns : List ColumnDef
  idColumn : Option Nat := none
  autoincrement : Bool := false
  rows : List (Int × List SqlValue) := []
  /-- The largest row id the table ever held. -/
  sequence : Int := 0
  deriving Inhabited

/-- A store: its tables in the order they were created. -/
structure Database where
  tables : List Table := []
  deriving Inhabited

/-- Whether two names are the same but for ASCII case. -/
def sameName (a b : String) : Bool := a.toLower == b.toLower

namespace Table

/-- The position of a named column. -/
def columnIndex? (t : Table) (name : String) : Option Nat :=
  t.columns.findIdx? fun c => sameName c.name name

/-- The names of the columns. -/
def columnNames (t : Table) : List String := t.columns.map (·.name)

/-- The row id a new row gets when none is given. -/
def nextRowid (t : Table) : Int :=
  let largest := t.rows.foldl (fun m (id, _) => max m id) 0
  (if t.autoincrement then max largest t.sequence else largest) + 1

/-- Inserts a row at its place in row id order. -/
def place (rows : List (Int × List SqlValue)) (row : Int × List SqlValue) : List (Int × List SqlValue) :=
  let (before, after) := rows.span fun (id, _) => id < row.1
  before ++ row :: after

/-- Adds a row of values, one per column in column order, converting each to its
column's affinity; gives the row id of the new row. -/
def insert (t : Table) (values : List SqlValue) : Except String (Table × Int) := do
  let values := (t.columns.zip values).map fun (c, v) => c.affinity.apply v
  let (rowid, values) ← match t.idColumn with
    | none => pure (t.nextRowid, values)
    | some i =>
      match values.getD i .null with
      | .null => pure (t.nextRowid, values.set i (.integer t.nextRowid))
      | .integer n => pure (n, values)
      | _ => throw "datatype mismatch"
  if t.rows.any (·.1 == rowid) then
    let column := match t.idColumn with
      | some i => (t.columns.getD i default).name
      | none => "rowid"
    throw s!"UNIQUE constraint failed: {t.name}.{column}"
  return ({ t with rows := place t.rows (rowid, values), sequence := max t.sequence rowid }, rowid)

end Table

namespace Database

/-- The table of a name. -/
def table? (db : Database) (name : String) : Option Table :=
  db.tables.find? fun t => sameName t.name name

/-- The column names of a table, none when there is no such table. -/
def tableColumns (db : Database) (name : String) : List String :=
  match db.table? name with
  | some t => t.columnNames
  | none => []

/-- Replaces a table by its new state. -/
def setTable (db : Database) (t : Table) : Database :=
  { db with tables := db.tables.map fun u => if sameName u.name t.name then t else u }

/-- Creates a table, unless one of the name exists and `ifNotExists` says to leave it. -/
def create (db : Database) (t : Table) (ifNotExists : Bool) : Except String Database :=
  match db.table? t.name with
  | some _ => if ifNotExists then .ok db else .error s!"table {t.name} already exists"
  | none => .ok { db with tables := db.tables ++ [t] }

/-- Adds a row to a table, the named columns getting the values and the others nothing;
gives the row id of the new row. -/
def insert (db : Database) (table : String) (columns : Option (List String)) (values : List SqlValue) :
    Except String (Database × Int) := do
  let some t := db.table? table | throw s!"no such table: {table}"
  let row ← match columns with
    | none =>
      if values.length ≠ t.columns.length then
        throw s!"table {t.name} has {t.columns.length} columns but {values.length} values were supplied"
      pure values
    | some names =>
      if names.length ≠ values.length then throw s!"{values.length} values for {names.length} columns"
      let positions ← names.mapM fun n =>
        match t.columnIndex? n with
        | some i => pure i
        | none => throw s!"table {t.name} has no column named {n}"
      pure ((List.range t.columns.length).map fun i =>
        match positions.idxOf? i with
        | some j => values.getD j .null
        | none => .null)
  let (t, rowid) ← t.insert row
  return (db.setTable t, rowid)

end Database

end TransitFeed.Sql
