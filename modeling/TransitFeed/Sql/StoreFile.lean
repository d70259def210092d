import TransitFeed.Sql.Page

/-!
# Store files

The bytes of a relational store file follow from the statements that wrote it. The first
write of an empty file makes page 1: the 100-byte file header (page size, format versions,
payload fractions) over the leaf of the schema table. Every table and index gets the next
page as its root, and a row in the schema table: kind, name, table, root page and the
statement that made it. A table's schema row is first written empty and then completed,
as creating a table does; the first table that counts its row ids also creates the table
of row id counts, `sqlite_sequence`, which keeps a row per table with the largest row id
it gave.

The first table also sets the schema format (4) and the text encoding (UTF-8) in the file
header, and every statement that changes the schema raises the schema version by one. A
row added to a table adds the keys of the table's indexes, each key being the indexed value
and the row id, and updates the table's row id count. Each committed transaction raises
the change counter, and with it writes the page count, the counter again (the version the
rest of the header is valid for) and the version of the library that wrote it.

Only files whose every b-tree fits its root page are followed: a write that needs a second
page for a tree is refused, and a file this module did not write is not followed; such a
store is laid out afresh from its tables (`Database.layout`).
-/

namespace TransitFeed.Sql

/-- The library version a store file's header names as its last writer. -/
def writerVersion : Nat := 3045000

/-- An index of a store file: its name, its table, the position in the table's rows of the
value it orders by, and its root page. -/
structure FileIndex where
  name : String
  table : String
  column : Nat
  root : Nat
  deriving Inhabited

/-- A store file as written so far: its pages, its change counter, its schema version,
and the root pages of its tables and indexes. -/
structure StoreFile where
  pages : Array Page := #[]
  changes : Nat := 0
  schemaVersion : Nat := 0
  roots : List (String × Nat) := []
  indexes : List FileIndex := []
  deriving Inhabited

namespace StoreFile

/-- The table that keeps the largest row id each counting table gave. -/
def sequenceTable : String := "sqlite_sequence"

/-- The first bytes of every store file. -/
def magic : List UInt8 := "SQLite format 3".toUTF8.toList ++ [0]

/-- A page of zeros. -/
def blank : ByteArray := ByteArray.mk (Array.replicate pageSize 0)

/-- The page of a number, counting from 1. -/
def page (f : StoreFile) (n : Nat) : Page := f.pages.getD (n - 1) default

/-- Sets a four-byte big-endian number of the file header. -/
def setHeader (f : StoreFile) (at_ : Nat) (v : Nat) : StoreFile :=
  { f with pages := f.pages.modify 0 fun p => p.write at_ (Record.bigEndian 4 v) }

/-- The four-byte big-endian number of the file header at a place. -/
def headerValue (f : StoreFile) (at_ : Nat) : Nat :=
  Record.ofBigEndian ((f.page 1).bytes.extract at_ (at_ + 4)).toList

/-- The file with its first page: the file header over an empty schema leaf. -/
def begin (f : StoreFile) : StoreFile :=
  if f.pages.isEmpty then
    let p := Page.empty blank 100 .tableLeaf
    let p := p.write 0 (magic ++ Record.bigEndian 2 pageSize ++ [1, 1, 0, 64, 32, 32])
    { f with pages := #[p] }
  else f

/-- Adds an empty page of a kind; gives its number. -/
def addPage (f : StoreFile) (kind : PageKind) : StoreFile × Nat :=
  ({ f with pages := f.pages.push (Page.empty blank 0 kind) }, f.pages.size + 1)

/-- Replaces a page by a new state of it, if the page could take the change. -/
def update (f : StoreFile) (n : Nat) (p : Option Page) : Except String StoreFile :=
  match p with
  | some p => .ok { f with pages := f.pages.set! (n - 1) p }
  | none => .error s!"page {n} is full"

/-- Writes the row of a row id into the table whose root page is given. -/
def putRow (f : StoreFile) (root rowid : Nat) (values : List SqlValue) : Except String StoreFile :=
  f.update root ((f.page root).putRow rowid (Record.encode values))

/-- Adds a key to the index whose root page is given. -/
def putKey (f : StoreFile) (root : Nat) (key : List SqlValue) : Except String StoreFile :=
  f.update root ((f.page root).putKey key)

/-- The row id a new row of a table gets: one more than the largest. -/
def nextRowid (f : StoreFile) (root : Nat) : Nat := (f.page root).rowids.foldl max 0 + 1

/-- The root page of a table or index. -/
def root? (f : StoreFile) (name : String) : Option Nat := f.roots.lookup name

/-- The schema row of a table or index. -/
def schemaRow (kind name table : String) (root : Nat) (statement : String) : List SqlValue :=
  [.text kind, .text name, .text table, .integer root, .text statement]

/-- Adds a table: its root page and its schema row, written empty and then completed. -/
def addTable (f : StoreFile) (name statement : String) : Except String StoreFile := do
  let (f, root) := f.addPage .tableLeaf
  let rowid := f.nextRowid 1
  let f ← f.putRow 1 rowid (List.replicate 5 .null)
  let f ← f.putRow 1 rowid (schemaRow "table" name name root statement)
  return { f with roots := f.roots ++ [(name, root)] }

/-- Raises the schema version by one, as a statement that changes the schema does. -/
def bumpSchema (f : StoreFile) : StoreFile :=
  let f := { f with schemaVersion := f.schemaVersion + 1 }
  f.setHeader 40 f.schemaVersion

/-- Creates a table with the statement the file keeps for it; a table that counts its row
ids creates the table of row id counts if the file has none. -/
def createTable (f : StoreFile) (name statement : String) (counting : Bool) :
    Except String StoreFile := do
  let f := f.begin
  let f := if f.headerValue 44 = 0 then (f.setHeader 44 4).setHeader 56 1 else f
  let f ← f.addTable name statement
  let f ← if counting && (f.root? sequenceTable).isNone then
      f.addTable sequenceTable s!"CREATE TABLE {sequenceTable}(name,seq)"
    else pure f
  return f.bumpSchema

/-- The rows of a table whose b-tree is its root page, by row id. -/
def rows (f : StoreFile) (root : Nat) : List (Nat × List SqlValue) :=
  let p := f.page root
  (List.range p.cellCount).map fun i =>
    let (_, next) := Record.readVarint p.bytes (p.cellAt i)
    let (rowid, start) := Record.readVarint p.bytes next
    (rowid, Record.decode p.bytes start)

/-- Creates an index of a table on the value at a position of its rows, holding the keys
of the rows the table has. -/
def createIndex (f : StoreFile) (name table : String) (column : Nat) (statement : String) :
    Except String StoreFile := do
  let some tableRoot := f.root? table | throw s!"no such table: {table}"
  let (f, root) := f.addPage .indexLeaf
  let rowid := f.nextRowid 1
  let f ← f.putRow 1 rowid (schemaRow "index" name table root statement)
  let f ← (f.rows tableRoot).foldlM (fun f (id, values) =>
    f.putKey root [values.getD column .null, .integer id]) f
  let index : FileIndex := { name, table, column, root }
  let f := { f with roots := f.roots ++ [(name, root)], indexes := f.indexes ++ [index] }
  return f.bumpSchema

/-- Adds a row to a table, and its keys to the table's indexes; a table that counts its
row ids then has its count, the given largest row id, written. -/
def insert (f : StoreFile) (table : String) (rowid : Nat) (values : List SqlValue)
    (count : Option Int) : Except String StoreFile := do
  let some root := f.root? table | throw s!"no such table: {table}"
  let f ← (f.indexes.filter (·.table == table)).foldlM (fun f ix =>
    f.putKey ix.root [values.getD ix.column .null, .integer rowid]) f
  let f ← f.putRow root rowid values
  match count, f.root? sequenceTable with
  | some largest, some sequence =>
    let named (vs : List SqlValue) : Bool :=
      match vs.head? with
      | some (.text t) => t == table
      | _ => false
    let row := match (f.rows sequence).find? fun (_, vs) => named vs with
      | some (id, _) => id
      | none => f.nextRowid sequence
    f.putRow sequence row [.text table, .integer largest]
  | _, _ => return f

/-- Ends a transaction that wrote to the file. -/
def commit (f : StoreFile) : StoreFile :=
  if f.pages.isEmpty then f
  else
    let f := { f with changes := f.changes + 1 }
    (((f.setHeader 24 f.changes).setHeader 28 f.pages.size).setHeader 92 f.changes).setHeader 96
      writerVersion

/-- The bytes of the file. -/
def bytes (f : StoreFile) : ByteArray := f.pages.foldl (fun acc p => acc ++ p.bytes) ByteArray.empty

end StoreFile

end TransitFeed.Sql
