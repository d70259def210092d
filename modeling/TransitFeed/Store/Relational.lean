import TransitFeed.Sql.Execute
import TransitFeed.Copy.Engine
import TransitFeed.Feed.Load
import TransitFeed.Feed.Keys
import TransitFeed.Json.Field
import TransitFeed.Store.TextFeed

/-!
# Feeds in a relational store

A feed is stored as one table per collection, named after its file without `.txt`. Each
table has an `id` row id column, the collection's columns, and an `_extra` column with
the extra columns as a JSON list of name and value pairs. The row id of a written record
is its new identifier, so references hold row ids.

Reading a collection reads its rows in `id` order and turns references back into natural
identifiers: the natural identifier of a row id is found by grouping the target table on
its identifier column, each group standing for its smallest row id. The stop times of
given trips are found through those trips' row ids, 500 at a time; the stop times of the
other trips are the rows whose trip is not among those row ids.

What the store itself refuses, a missing column or a cell of the wrong kind, fails the
read with the store's message.
-/

namespace TransitFeed

open Sql

/-- The name of the column that holds the extra columns. -/
def extraColumn : String := "_extra"

/-- The most row ids looked up at once. -/
def maxParameters : Nat := 500

/-- The table a collection is written to. -/
def Kind.table (k : Kind) : Table :=
  { name := k.tableName,
    columns := [{ name := "id", affinity := .integer }] ++ k.columnNames.map (fun n => { name := n }) ++
      [{ name := extraColumn, affinity := .text }],
    idColumn := some 0, autoincrement := true }

/-- The JSON text of extra columns. -/
def extraJson (extra : List (String × String)) : String :=
  Json.compact (.arr (extra.map fun (k, v) => .arr [.str k, .str v]))

/-- Reads a JSON list of name and value pairs. -/
def readExtra (text : String) : Except JsonRead.Fault (List (String × String)) :=
  JsonRead.readAll (JsonRead.readList readPair) text
where
  readPair : JsonRead.Reader (String × String) := do
    match ← JsonRead.blanks with
    | none => JsonRead.failAhead "EOF while parsing a value"
    | some c =>
      JsonRead.placed do
        if c = '[' then
          JsonRead.nested (do
            let items ← JsonRead.readItems 2 fun _ => JsonRead.readString
            match items with
            | [a, b] => return (a, b)
            | _ => JsonRead.failValue s!"invalid length {items.length}, expected a tuple of size 2")
            JsonRead.endList
        else JsonRead.unexpected "a tuple of size 2"

/-- The name of the storage class of a cell, as the store's faults say it. -/
def sqlTypeName : SqlValue → String
  | .null => "Null"
  | .integer _ => "Integer"
  | .real _ => "Real"
  | .text _ => "Text"
  | .blob _ => "Blob"

/-- The fault of a cell of the wrong kind. -/
def columnTypeFault (v : SqlValue) (index : Nat) (name : String) : FeedError :=
  .sqlite s!"Invalid column type {sqlTypeName v} at index: {index}, name: {name}"

namespace Sql.Database

/-- Writes a record into the table of its collection, creating the table if needed; gives
the row id of the new row. -/
def insertRecord (db : Database) (r : Record) : Except FeedError (Database × Int) :=
  let t := r.kind.table
  let extra : SqlValue := if r.extra.isEmpty then .null else .text (extraJson r.extra)
  match db.create t true with
  | .error e => .error (.sqlite e)
  | .ok db =>
    match db.insert t.name (some (r.kind.columnNames ++ [extraColumn])) (r.sqlRow ++ [extra]) with
    | .error e => .error (.sqlite e)
    | .ok r => .ok r

/-- Writes a record into the table of its collection, creating the table if needed; gives
the new identifier, the row id. -/
def addRecord (db : Database) (r : Record) : Except FeedError (Database × String) :=
  (db.insertRecord r).map fun (db, rowid) => (db, toString rowid)

/-- Creates the tables of every collection. -/
def createAll (db : Database) : Except FeedError Database :=
  Kind.all.foldlM (fun db k => (db.create k.table true).mapError FeedError.sqlite) db

/-- The store as a destination. -/
def sink : Sink Database where
  add db r := db.addRecord r
  addAll db rs := do
    let mut db := db
    let mut ids := []
    for r in rs do
      let (db', id) ← db.addRecord r
      db := db'
      ids := ids ++ [id]
    return (db, ids)

/-- Whether the store has a table for the collection. -/
def hasTable (db : Database) (k : Kind) : Bool := !(db.tableColumns k.tableName).isEmpty

/-- The groups of equal values, in the order of values, each with its members. -/
def groups (keys : List (SqlValue × SqlValue)) : List (SqlValue × List SqlValue) :=
  let sorted := keys.mergeSort fun a b => compareValues a.1 b.1 != .gt
  sorted.foldl (fun acc (k, v) =>
    match acc.getLast? with
    | some (g, vs) =>
      if compareValues g k == .eq then acc.dropLast ++ [(g, vs ++ [v])] else acc ++ [(k, [v])]
    | none => [(k, [v])]) []

/-- The smallest value that is something, if any. -/
def smallest (vs : List SqlValue) : SqlValue :=
  vs.foldl (fun m v =>
    if v.isNull then m
    else if m.isNull || compareValues v m == .lt then v else m) .null

/-- The natural identifier of each row id of a collection, as text pairs. -/
def naturals (db : Database) (k : Kind) : Except FeedError (List (String × String)) := do
  let some column := k.idColumn? | return []
  let some t := db.table? k.tableName | return []
  if t.columns.isEmpty then return []
  let some idIndex := t.columnIndex? "id" | throw (.sqlite "no such column: id")
  let natural : List SqlValue → SqlValue := match t.columnIndex? column with
    | some j => fun r => r.getD j .null
    | none => fun _ => .text column
  let pairs := t.rows.map fun (_, r) => (natural r, r.getD idIndex .null)
  let mut out : List (String × String) := []
  for (key, ids) in groups pairs do
    let rowid ← match smallest ids with
      | .integer n => pure (toString n)
      | v => throw (columnTypeFault v 0 "min(id)")
    let name ← match key with
      | .null => pure ""
      | .text s => pure s
      | v => throw (columnTypeFault v 1 ((t.columnIndex? column).map (fun j => (t.columns.getD j default).name) |>.getD column))
    out := (out.filter (·.1 != rowid)) ++ [(rowid, name)]
  return out

/-- Which rows of the stop times a scan reads. -/
inductive RowChoice where
  | all
  | ofTrips (rowids : List String)
  | notOfTrips (rowids : List String)

/-- The rows of a table in `id` order, keeping those whose `trip_id` is among the given
row ids when asked. -/
def orderedRows (t : Table) (among : Option (List String)) : Except FeedError (List (List SqlValue)) := do
  let some idIndex := t.columnIndex? "id" | throw (.sqlite "no such column: id")
  let rows ← match among with
    | none => pure (t.rows.map (·.2))
    | some ids =>
      let some tripIndex := t.columnIndex? "trip_id" | throw (.sqlite "no such column: trip_id")
      let col := t.columns.getD tripIndex default
      let wanted : List SqlValue := ids.map fun i => match col.affinity with
        | .blob => .text i
        | a => a.apply (.text i)
      pure ((t.rows.map (·.2)).filter fun r =>
        let v := r.getD tripIndex .null
        wanted.any fun w => !v.isNull && compareValues v w == .eq)
  return rows.mergeSort fun a b => compareValues (a.getD idIndex .null) (b.getD idIndex .null) != .gt

/-- A row id as a line number, wrapping negative ones as unsigned 64-bit values. -/
def rowLine (n : Int) : Nat := if n < 0 then (n + Int.pow 2 64).toNat else n.toNat

/-- Reads one row of a table as a stream item; `none` for a stop time of a skipped trip. -/
def rowItem (k : Kind) (names : List String) (lookup : KeyLookup) (skipped : List String)
    (row : List SqlValue) : Except FeedError (Option (Except Issue Record)) := do
  let mut rowid : Option Int := none
  let mut extra : Option String := none
  let mut values := []
  for (name, i) in names.zipIdx do
    let v := row.getD i .null
    if name == "id" then
      rowid ← match v with
        | .integer n => pure (some n)
        | .null => pure none
        | _ => throw (columnTypeFault v i name)
    else if name == extraColumn then
      extra ← match v with
        | .text s => pure (some s)
        | .null => pure none
        | _ => throw (columnTypeFault v i name)
    else values := values ++ [(name, v)]
  let line := rowid.map rowLine
  let r := Record.ofSql k values
  if k == .stopTime && skipped.contains (r.str "trip_id") then return none
  let r := { r with line }
  let r := match extra with
    | none => r
    | some json =>
      match readExtra json with
      | .ok pairs => { r with extra := pairs }
      | .error e => { r with loadIssues := r.loadIssues ++ [Issue.row s!"unreadable extra columns: {e.text}"] }
  return some (match r.updateKeys lookup with
    | .ok r => .ok r
    | .error e => .error (e.atLine line))

/-- The items of rows read one after another; a row the store refuses ends the stream
with its fault. -/
def rowItems (k : Kind) (names : List String) (lookup : KeyLookup) (skipped : List String) :
    List (List SqlValue) → List (Except Issue Record) × Option FeedError
  | [] => ([], none)
  | row :: rest =>
    match rowItem k names lookup skipped row with
    | .error e => ([], some e)
    | .ok item =>
      let (items, failure) := rowItems k names lookup skipped rest
      (match item with
        | some i => i :: items
        | none => items, failure)

/-- The stream of a collection's rows. -/
def rowStream (db : Database) (k : Kind) (choice : RowChoice) : Stream :=
  let run : Except FeedError Stream := do
    let targets := (k.references.map (·.2)).eraseDups
    let mut known : List (Kind × List (String × String)) := []
    for target in targets do
      known := known ++ [(target, ← db.naturals target)]
    let lookup : KeyLookup := fun target old => ((known.lookup target).getD []).lookup old
    let some t := db.table? k.tableName | return { items := [] }
    let names := t.columnNames
    let (batches, skipped) := match choice with
      | .all => ([none], [])
      | .ofTrips ids => ((Copying.chunks maxParameters ids).map some, [])
      | .notOfTrips ids => ([none], ids)
    let mut items := []
    for batch in batches do
      match orderedRows t batch with
      | .error e => return { items, failure := some e }
      | .ok rows =>
        let (more, failure) := rowItems k names lookup skipped rows
        items := items ++ more
        if failure.isSome then return { items, failure }
    return { items }
  match run with
  | .ok s => s
  | .error e => { items := [], failure := some e }

/-- The row ids of the given natural trip identifiers. -/
def tripRowids (db : Database) (trips : List String) : Except FeedError (List String) := do
  let naturals ← db.naturals .trip
  return (naturals.filter fun (_, n) => trips.contains n).map (·.1)

/-- The store as a source. -/
def source (db : Database) : Source where
  read k := .ok (if db.hasTable k then some (db.rowStream k .all) else none)
  stopTimesOf trips := do
    let rowids ← db.tripRowids trips
    if rowids.isEmpty then return some { items := [] }
    return if db.hasTable .stopTime then some (db.rowStream .stopTime (.ofTrips rowids)) else none
  stopTimesNotOf trips := do
    let rowids ← db.tripRowids trips
    return if db.hasTable .stopTime then some (db.rowStream .stopTime (.notOfTrips rowids)) else none

/-- The problems of the store's shape: for each collection in order, a missing required
table or the required columns its table lacks, then a missing calendar. -/
def problems (db : Database) : List FeedError :=
  let perKind := Kind.all.flatMap fun k =>
    let columns := db.tableColumns k.tableName
    if columns.isEmpty then
      if requiredFiles.contains k.fileName then [FeedError.missingFile k.fileName] else []
    else
      (k.columns.filter fun c => c.required && !columns.contains c.name).map fun c =>
        FeedError.missingColumn k.fileName c.name
  let calendar :=
    if !db.hasTable .calendar && !db.hasTable .calendarDate then [FeedError.missingFile "calendar.txt"] else []
  perKind ++ calendar

/-- Each table with rows: its column names and its rows in `id` order. -/
def dump (db : Database) : List (String × List String × List (List SqlValue)) :=
  db.tables.filterMap fun t =>
    if t.rows.isEmpty then none
    else
      let rows := match orderedRows t none with
        | .ok rows => rows
        | .error _ => t.rows.map (·.2)
      some (t.name, t.columnNames, rows)

end Sql.Database

end TransitFeed
