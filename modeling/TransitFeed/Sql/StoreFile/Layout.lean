import TransitFeed.Sql.StoreFile
import TransitFeed.Sql.Dump

/-!
# Laying out a store file from its tables

When the writes that made a store cannot be followed page by page, its file is laid out
afresh from its tables: a valid store file with the same tables and rows, though not the
bytes the writes would have left, and without indexes. Each table's b-tree is built from
its rows in row id order, bottom up. Leaves are filled in order while the next cell and its
place in the cell array fit; an interior level then holds, for every child but the last,
the child's page and the largest row id under it, and names the last child in its header.

A payload too large for a page keeps its first part in the cell and spills the rest into a
chain of overflow pages, each starting with the number of the next (see
`FileView.localSize` for the part kept). Page 1 holds the file header and the root of the
schema table, whose rows name the tables and the table of row id counts, each with its
root page and statement.
-/

namespace TransitFeed.Sql

namespace Layout

/-- The most payload a table leaf cell keeps in its page. -/
def maxLocal : Nat := pageSize - 35

/-- The least payload a cell keeps in its page when the payload spills. -/
def minLocal : Nat := (pageSize - 12) * 32 / 255 - 23

/-- The part of a payload that a table leaf cell keeps in its page. -/
def localSize (size : Nat) : Nat :=
  if size ≤ maxLocal then size
  else
    let k := minLocal + (size - minLocal) % (pageSize - 4)
    if k ≤ maxLocal then k else minLocal

/-- Pages laid out so far, page `n` at place `n - 1`. -/
abbrev Pages := StateM (Array ByteArray)

/-- Takes the next page number for a page whose bytes come later. -/
def reserve : Pages Nat := do
  let ps ← get
  set (ps.push StoreFile.blank)
  return ps.size + 1

/-- Sets the bytes of a page. -/
def fill (n : Nat) (bytes : ByteArray) : Pages Unit :=
  modify fun ps => ps.set! (n - 1) bytes

/-- Writes the spilt part of a payload into a chain of overflow pages; gives the number of
the first page of the chain. -/
def spill (rest : List UInt8) : Nat → Pages Nat
  | 0 => pure 0
  | fuel + 1 => do
    if rest.isEmpty then return 0
    let page ← reserve
    let here := rest.take (pageSize - 4)
    let next ← spill (rest.drop (pageSize - 4)) fuel
    fill page (ByteArray.mk (Record.bigEndian 4 next ++ here ++
      List.replicate (pageSize - 4 - here.length) 0).toArray)
    return page

/-- The leaf cell of a row: its payload size, its row id, the payload kept in the page and,
when some of it spills, the first overflow page. -/
def leafCell (rowid : Nat) (payload : List UInt8) : Pages (List UInt8) := do
  let kept := localSize payload.length
  let part ← if kept ≥ payload.length then pure payload
    else do
      let first ← spill (payload.drop kept) (payload.length / (pageSize - 4) + 2)
      pure (payload.take kept ++ Record.bigEndian 4 first)
  return Record.varint payload.length ++ Record.varint rowid ++ part

/-- The interior cell of a child: its page and the largest row id under it. -/
def interiorCell (child key : Nat) : List UInt8 := Record.bigEndian 4 child ++ Record.varint key

/-- The bytes of a page: the header (with the right-most child of an interior page) starting
at `headerAt`, the cell array, and the cells packed from the end of the page. -/
def pageBytes (kindCode : Nat) (headerAt : Nat) (cells : List (List UInt8)) (right : Option Nat) :
    ByteArray :=
  let (places, content) := cells.foldl (fun (places, content) c =>
    (places ++ [pageSize - content.length - c.length], c ++ content))
    (([] : List Nat), ([] : List UInt8))
  let top := pageSize - content.length
  let header := [UInt8.ofNat kindCode, 0, 0] ++ Record.bigEndian 2 cells.length ++
    Record.bigEndian 2 top ++ [0] ++ (match right with
      | some r => Record.bigEndian 4 r
      | none => [])
  let front := List.replicate headerAt 0 ++ header ++ places.flatMap (Record.bigEndian 2)
  ByteArray.mk (front ++ List.replicate (top - front.length) 0 ++ content).toArray

/-- Splits items into runs whose cells each fit a page of `room` bytes, every cell taking
two more for its place in the cell array; an item is never left out. -/
def runs {α : Type} (room : Nat) (size : α → Nat) (items : List α) : List (List α) :=
  let (done, current, _) := items.foldl (fun (done, current, used) x =>
    let need := size x + 2
    if used + need ≤ room || current.isEmpty then (done, current ++ [x], used + need)
    else (done ++ [current], [x], need)) (([] : List (List α)), ([] : List α), 0)
  if current.isEmpty then done else done ++ [current]

/-- Runs in which the last has a second item, taken from the run before it, so that no
interior page is left with a right child and no cell. -/
def balanced {α : Type} (rs : List (List α)) : List (List α) :=
  match rs.reverse with
  | [x] :: prev :: more =>
    match prev.getLast? with
    | some y => (more.reverse ++ [prev.dropLast, [y, x]])
    | none => rs
  | _ => rs

/-- The codes of table pages: a leaf and an interior page. -/
def leafCode : Nat := 13
/-- The code of an interior table page. -/
def interiorCode : Nat := 5

/-- Builds the levels above a level of children, each with the largest row id under it,
until one page holds them; the root takes page `root` when given, with its header at
`headerAt`. Gives the root page. -/
def above (headerAt : Nat) (root : Option Nat) : List (Nat × Nat) → Nat → Pages Nat
  | [], _ => pure 0
  | [(child, _)], _ => pure child
  | children, 0 => pure ((children.head?.map (·.1)).getD 0)
  | children, fuel + 1 => do
    -- every page of the level takes cells for its children but the last, its right child
    let groups := balanced (runs (pageSize - 12 - headerAt)
      (fun (c, k) => (interiorCell c k).length) children)
    let groups := groups.map fun g => (g.dropLast, g.getLast?.getD (0, 0))
    match groups with
    | [(cells, (right, _))] =>
      let page ← match root with
        | some r => pure r
        | none => reserve
      fill page (pageBytes interiorCode headerAt (cells.map fun (c, k) => interiorCell c k) (some right))
      return page
    | _ =>
      let mut next : List (Nat × Nat) := []
      for (cells, (right, key)) in groups do
        let page ← reserve
        fill page (pageBytes interiorCode 0 (cells.map fun (c, k) => interiorCell c k) (some right))
        next := next ++ [(page, key)]
      above headerAt root next fuel

/-- Builds the b-tree of a table's rows, given in row id order with their records; the
root takes page `root` when given, with its header at `headerAt`. Gives the root page. -/
def tree (rows : List (Nat × List UInt8)) (root : Option Nat) (headerAt : Nat) : Pages Nat := do
  let cells ← rows.mapM fun (rowid, payload) => do
    return (rowid, ← leafCell rowid payload)
  match runs (pageSize - 8 - headerAt) (fun (_, c) => c.length) cells with
  | [] | [_] =>
    let page ← match root with
      | some r => pure r
      | none => reserve
    fill page (pageBytes leafCode headerAt (cells.map (·.2)) none)
    return page
  | leaves =>
    let mut level : List (Nat × Nat) := []
    for leaf in leaves do
      let page ← reserve
      fill page (pageBytes leafCode 0 (leaf.map (·.2)) none)
      level := level ++ [(page, (leaf.getLast?.map (·.1)).getD 0)]
    above headerAt root level (level.length + 1)

/-- A row id as a variable-length number: a 64-bit two's complement. -/
def rowKey (rowid : Int) : Nat := if rowid < 0 then (rowid + Int.pow 2 64).toNat else rowid.toNat

end Layout

open Layout in
/-- A store file holding the tables of a store, laid out afresh. A store with no table is
an empty file. -/
def Database.layout (db : Database) : ByteArray :=
  if db.tables.isEmpty then ByteArray.empty
  else
    let build : Pages (List (List SqlValue)) := do
      let _ ← reserve
      let mut schema : List (List SqlValue) := []
      for t in db.tables do
        let rows := (t.rows.mergeSort fun a b => a.1 ≤ b.1).map fun (rowid, vs) =>
          let vs := match t.idColumn with
            | some i => vs.set i .null
            | none => vs
          (rowKey rowid, Record.encode vs)
        let root ← tree rows none 0
        schema := schema ++ [StoreFile.schemaRow "table" t.name t.name root t.definition]
      let counting := db.tables.filter (·.autoincrement)
      if !counting.isEmpty then
        let counts := (counting.filter fun t => t.sequence > 0).zipIdx.map fun (t, i) =>
          (i + 1, Record.encode [.text t.name, .integer t.sequence])
        let root ← tree counts none 0
        schema := schema ++ [StoreFile.schemaRow "table" StoreFile.sequenceTable
          StoreFile.sequenceTable root s!"CREATE TABLE {StoreFile.sequenceTable}(name,seq)"]
      let _ ← tree (schema.zipIdx.map fun (row, i) => (i + 1, Record.encode row)) (some 1) 100
      return schema
    let (schema, pages) := build.run #[]
    let header := StoreFile.magic ++ Record.bigEndian 2 pageSize ++ [1, 1, 0, 64, 32, 32] ++
      Record.bigEndian 4 1 ++ Record.bigEndian 4 pages.size ++ Record.bigEndian 4 0 ++
      Record.bigEndian 4 0 ++ Record.bigEndian 4 schema.length ++ Record.bigEndian 4 4 ++
      Record.bigEndian 4 0 ++ Record.bigEndian 4 0 ++ Record.bigEndian 4 1 ++
      List.replicate 32 0 ++ Record.bigEndian 4 1 ++ Record.bigEndian 4 writerVersion
    let first := (pages.getD 0 StoreFile.blank).toList
    let pages := pages.set! 0 (ByteArray.mk (header ++ first.drop 100).toArray)
    pages.foldl (fun acc p => acc ++ p) ByteArray.empty

end TransitFeed.Sql
