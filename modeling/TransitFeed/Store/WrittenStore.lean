import TransitFeed.Store.Relational
import TransitFeed.Sql.StoreFile

/-!
# Stores written by a copy

A copy into a relational store writes through one connection. Each collection's table is
created once, with an `id` column that counts its row ids, the collection's columns and
the `_extra` column; the table of stop times also gets an index on its trips. Every
creation is a transaction of its own, so is every record written alone, and a batch of
records is one transaction after the tables it needs are made.

The store keeps its tables, and the bytes of its file as long as the file can follow the
writes (see `StoreFile`); once a write is beyond it, the bytes are no longer known.
-/

namespace TransitFeed

open Sql

/-- A relational store written through one connection: its tables, and the bytes of its
file while they are known. -/
structure WrittenStore where
  db : Database := {}
  file : Option StoreFile := none
  deriving Inhabited

namespace WrittenStore

/-- The statement that creates a collection's table, as the file keeps it. -/
def tableStatement (k : Kind) : String :=
  let columns := ["id INTEGER PRIMARY KEY AUTOINCREMENT"] ++
    k.columnNames.map (fun c => "\"" ++ c ++ "\"") ++ [extraColumn ++ " TEXT"]
  "CREATE TABLE \"" ++ k.tableName ++ "\" (" ++ ", ".intercalate columns ++ ")"

/-- The name of the index of stop times by trip. -/
def tripIndex : String := "stop_times_trip_id"

/-- The statement that creates the index of stop times by trip, as the file keeps it. -/
def tripIndexStatement : String := s!"CREATE INDEX {tripIndex} ON stop_times (trip_id)"

/-- The position of the trip in a row of the stop times table, after its `id`. -/
def tripColumn : Nat := (Kind.stopTime.columnIndex? "trip_id").getD 0 + 1

/-- Follows a write in the file; a write the file cannot follow leaves its bytes unknown. -/
def follow (w : WrittenStore) (step : StoreFile → Except String StoreFile) : WrittenStore :=
  { w with file := w.file.bind fun f => (step f).toOption }

/-- Makes sure the table of a collection exists. A new table is created in a transaction of
its own, and the table of stop times then gets its index by trip in another. -/
def ensure (w : WrittenStore) (k : Kind) : Except FeedError WrittenStore :=
  if w.db.hasTable k then .ok w
  else
    match w.db.create k.table true with
    | .error e => .error (.sqlite e)
    | .ok db =>
      let w := { w with db }.follow fun f =>
        (f.createTable k.tableName (tableStatement k) true).map StoreFile.commit
      if k = .stopTime then
        .ok (w.follow fun f =>
          (f.createIndex tripIndex k.tableName tripColumn tripIndexStatement).map StoreFile.commit)
      else .ok w

/-- Makes sure the table of every collection exists, in processing order. -/
def createAll (w : WrittenStore) : Except FeedError WrittenStore := Kind.all.foldlM ensure w

/-- Writes a record, inside the current transaction; gives its row id. -/
def record (w : WrittenStore) (r : Record) : Except FeedError (WrittenStore × Int) := do
  let (db, rowid) ← w.db.insertRecord r
  let w := { w with db }
  match db.table? r.kind.tableName with
  | none => return (w, rowid)
  | some t =>
    let values := (t.rows.lookup rowid).getD []
    let values := match t.idColumn with
      | some i => values.set i .null
      | none => values
    let count := if t.autoincrement then some t.sequence else none
    return (w.follow fun f => f.insert t.name rowid.toNat values count, rowid)

/-- Writes one record in a transaction of its own. -/
def add (w : WrittenStore) (r : Record) : Except FeedError (WrittenStore × String) := do
  let w ← w.ensure r.kind
  let (w, rowid) ← w.record r
  return (w.follow fun f => .ok f.commit, toString rowid)

/-- Writes records in one transaction, after making the tables they need. -/
def addAll (w : WrittenStore) (rs : List Record) : Except FeedError (WrittenStore × List String) := do
  let w ← (rs.map (·.kind)).foldlM ensure w
  let (w, ids) ← rs.foldlM (fun (w, ids) r => do
    let (w, rowid) ← w.record r
    return (w, ids ++ [toString rowid])) (w, [])
  return (w.follow fun f => .ok f.commit, ids)

/-- The store as a destination. -/
def sink : Sink WrittenStore where
  add := add
  addAll := addAll

end WrittenStore

end TransitFeed
